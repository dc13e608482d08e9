import StripeRepair.Common.Network

/-!
# The keys of the queues of a node

A node has a map from `int`s to queues. The key of a local queue is the id of its packet, the
key of a cache queue the negated id, and `KEY0` for packet 0.

* `exists_use`: the keys that `prepareDataMap` and a packet round use are the keys of `Task.uses`.
* `keysInjective`: no two queues of a node have one key, when the id that `KEY0` negates is
  nobody's child.
-/

namespace StripeRepair

/-- What a queue of a packet is for: for the tasks of the node, or for the send task. -/
inductive QueueRole
  | loc
  | cache
  deriving DecidableEq, Repr

/-- A queue as the code means it. -/
structure QueueUse where
  role : QueueRole
  dagidx : Nat
  deriving DecidableEq, Repr

/-- The key it has in the map. -/
def QueueUse.key : QueueUse → Int
  | ⟨.loc, dagidx⟩ => localKey dagidx
  | ⟨.cache, dagidx⟩ => cacheKey dagidx

namespace Task

def usageUses (usage : Bool × Bool) (dagidx : Nat) : List QueueUse :=
  (if usage.1 then [⟨.loc, dagidx⟩] else []) ++ if usage.2 then [⟨.cache, dagidx⟩] else []

/-- The queues that a task fills, empties or has created. -/
def uses : Task → List QueueUse
  | .read blkName dagidxList usageList =>
    if blkName = some "ZERO" then dagidxList.map (QueueUse.mk .loc)
    else (dagidxList.zip usageList).flatMap fun e => usageUses e.2 e.1
  | .send dagidxList _ => dagidxList.map (QueueUse.mk .cache)
  | .recv dagidxList => dagidxList.map (QueueUse.mk .loc)
  | .compute computeList => (Worker.inputList computeList).map (QueueUse.mk .loc) ++
      computeList.flatMap fun ci => usageUses ci.usage ci.dstidx
  | .persist collectList _ => collectList.map (QueueUse.mk .loc)

end Task

/-- **Different queues have different keys**: of another packet, or for another role. -/
def KeysInjective (tasks : List Task) : Prop :=
  ∀ e ∈ tasks.flatMap Task.uses, ∀ e' ∈ tasks.flatMap Task.uses, e.key = e'.key → e = e'

/-! ## The keys in the code -/

namespace Task

theorem map_key_usageUses (usage : Bool × Bool) (v : Nat) :
    (usageUses usage v).map QueueUse.key = usageQueues usage v := by
  unfold usageUses usageQueues
  rw [List.map_append]
  congr 1
  · split <;> rfl
  · split <;> rfl

theorem exists_usageUse {usage : Bool × Bool} {v : Nat} {op : Op}
    (hop : op ∈ Worker.pushLocal usage v ∨ op ∈ Worker.pushCache usage v) :
    ∃ e ∈ usageUses usage v, op = .push e.key v := by
  unfold usageUses
  rcases hop with hop | hop
  · unfold Worker.pushLocal at hop
    split at hop
    · next h =>
      refine ⟨⟨.loc, v⟩, ?_, List.mem_singleton.1 hop⟩
      rw [if_pos h]
      exact List.mem_append_left _ (List.mem_singleton_self _)
    · cases hop
  · unfold Worker.pushCache at hop
    split at hop
    · next h =>
      refine ⟨⟨.cache, v⟩, ?_, List.mem_singleton.1 hop⟩
      rw [if_pos h]
      exact List.mem_append_right _ (List.mem_singleton_self _)
    · cases hop

/-- The queues that `prepareDataMap` creates. -/
theorem exists_use_of_mem_queues {t : Task} {key : Int} (h : key ∈ t.queues) :
    ∃ e ∈ t.uses, e.key = key := by
  have husage : ∀ {usage : Bool × Bool} {v : Nat}, key ∈ usageQueues usage v →
      ∃ e ∈ usageUses usage v, e.key = key := fun {usage v} hk => by
    rw [← map_key_usageUses] at hk
    exact List.mem_map.1 hk
  cases t with
  | read b vs us =>
    rw [queues] at h
    rw [uses]
    split at h
    · next hb =>
      rw [if_pos hb]
      obtain ⟨v, hv, rfl⟩ := List.mem_map.1 h
      exact ⟨⟨.loc, v⟩, List.mem_map_of_mem hv, rfl⟩
    · next hb =>
      rw [if_neg hb]
      obtain ⟨e, he, hk⟩ := List.mem_flatMap.1 h
      obtain ⟨e', he', hkey⟩ := husage hk
      exact ⟨e', List.mem_flatMap.2 ⟨e, he, he'⟩, hkey⟩
  | send vs tos => cases h
  | recv vs =>
    obtain ⟨v, hv, rfl⟩ := List.mem_map.1 h
    exact ⟨⟨.loc, v⟩, List.mem_map_of_mem hv, rfl⟩
  | compute cl =>
    obtain ⟨ci, hci, hk⟩ := List.mem_flatMap.1 h
    obtain ⟨e, he, hkey⟩ := husage hk
    exact ⟨e, List.mem_append_right _ (List.mem_flatMap.2 ⟨ci, hci, he⟩), hkey⟩
  | persist vs b => cases h

/-- The queues of a packet round. -/
theorem exists_use_of_mem_round {t : Task} {ecw : Nat} {key : Int} {v : Nat}
    (h : .push key v ∈ t.round ecw ∨ .pop key v ∈ t.round ecw) :
    ∃ e ∈ t.uses, e.key = key ∧ e.dagidx = v := by
  have hdagidx : ∀ {usage : Bool × Bool} {u : Nat} {e : QueueUse}, e ∈ usageUses usage u →
      e.dagidx = u := by
    intro usage u e he
    unfold usageUses at he
    rcases List.mem_append.1 he with he | he
    · split at he
      · rw [List.mem_singleton.1 he]
      · cases he
    · split at he
      · rw [List.mem_singleton.1 he]
      · cases he
  -- what is pushed for one packet, local or cache
  have hpush : ∀ {usage : Bool × Bool} {u : Nat} {op : Op},
      op ∈ Worker.pushLocal usage u ∨ op ∈ Worker.pushCache usage u →
      (op = .push key v ∨ op = .pop key v) →
      ∃ e ∈ usageUses usage u, e.key = key ∧ e.dagidx = v := by
    intro usage u op hop hkey
    obtain ⟨e, he, rfl⟩ := exists_usageUse hop
    rcases hkey with hkey | hkey
    · injection hkey with h1 h2
      exact ⟨e, he, h1, (hdagidx he).trans h2⟩
    · cases hkey
  obtain ⟨op, hop, hkey⟩ : ∃ op ∈ t.round ecw, op = .push key v ∨ op = .pop key v := by
    rcases h with h | h
    · exact ⟨_, h, Or.inl rfl⟩
    · exact ⟨_, h, Or.inr rfl⟩
  cases t with
  | read b vs us =>
    rw [round] at hop
    rw [uses]
    split at hop
    · next hb =>
      rw [if_pos hb]
      obtain ⟨u, hu, hop⟩ := List.mem_flatMap.1 hop
      rcases List.mem_pair.1 hop with rfl | rfl
      · rcases hkey with hkey | hkey <;> cases hkey
      · rcases hkey with hkey | hkey <;> cases hkey
        exact ⟨⟨.loc, _⟩, List.mem_map_of_mem hu, rfl, rfl⟩
    · next hb =>
      rw [if_neg hb]
      obtain ⟨j, -, hop⟩ := List.mem_flatMap.1 hop
      split at hop
      · cases hop
      · next e he =>
        rcases List.mem_cons.1 hop with rfl | hop
        · rcases hkey with hkey | hkey <;> cases hkey
        · obtain ⟨e', he', h'⟩ := hpush (List.mem_append.1 hop) hkey
          exact ⟨e', List.mem_flatMap.2 ⟨e, List.mem_of_find?_eq_some he, he'⟩, h'⟩
  | send vs tos =>
    obtain ⟨e, he, hop⟩ := List.mem_flatMap.1 hop
    rcases List.mem_cons.1 hop with rfl | hop
    · rcases hkey with hkey | hkey <;> cases hkey
      exact ⟨⟨.cache, e.1⟩, List.mem_map_of_mem (List.of_mem_zip he).1, rfl, rfl⟩
    · obtain ⟨c, -, rfl⟩ := List.mem_map.1 hop
      rcases hkey with hkey | hkey <;> cases hkey
  | recv vs =>
    obtain ⟨u, hu, hop⟩ := List.mem_flatMap.1 hop
    rcases List.mem_pair.1 hop with rfl | rfl
    · rcases hkey with hkey | hkey <;> cases hkey
    · rcases hkey with hkey | hkey <;> cases hkey
      exact ⟨⟨.loc, _⟩, List.mem_map_of_mem hu, rfl, rfl⟩
  | compute cl =>
    rcases List.mem_append.1 hop with hop | hop
    · obtain ⟨u, hu, rfl⟩ := List.mem_map.1 hop
      rcases hkey with hkey | hkey <;> cases hkey
      exact ⟨⟨.loc, _⟩, List.mem_append_left _ (List.mem_map_of_mem hu), rfl, rfl⟩
    · obtain ⟨ci, hci, hop⟩ := List.mem_flatMap.1 hop
      rcases List.mem_cons.1 hop with rfl | hop
      · rcases hkey with hkey | hkey <;> cases hkey
      · obtain ⟨e, he, h'⟩ := hpush (List.mem_append.1 hop).symm hkey
        exact ⟨e, List.mem_append_right _ (List.mem_flatMap.2 ⟨ci, hci, he⟩), h'⟩
  | persist vs b =>
    obtain ⟨u, hu, hop⟩ := List.mem_flatMap.1 hop
    rcases List.mem_pair.1 hop with rfl | rfl
    · rcases hkey with hkey | hkey <;> cases hkey
      exact ⟨⟨.loc, _⟩, List.mem_map_of_mem hu, rfl, rfl⟩
    · rcases hkey with hkey | hkey <;> cases hkey

theorem mem_usageUses {usage : Bool × Bool} {u v : Nat} {role : QueueRole} :
    ⟨role, v⟩ ∈ usageUses usage u ↔
      v = u ∧ ((role = .loc ∧ usage.1 = true) ∨ (role = .cache ∧ usage.2 = true)) := by
  unfold usageUses
  cases usage.1 <;> cases usage.2 <;> cases role <;> simp

/-- Packets that are taken as they are have local queues. -/
theorem not_mem_map_loc {vs : List Nat} {v : Nat} : ⟨.cache, v⟩ ∉ vs.map (QueueUse.mk .loc) := by
  intro h
  obtain ⟨u, -, hu⟩ := List.mem_map.1 h
  cases hu

end Task

/-! ## The tasks of a stripe -/

namespace Stripe

section
variable {s : Stripe} {ecn ecw : Nat} (hd : s.ecdag.WellFormed) (ord : HashOrder Walk) {c : Int}

theorem cache_moveTasks {level : Nat} {t : Task} (ht : t ∈ s.moveTasks ecn ecw ord c level)
    {v : Nat} (hv : ⟨.cache, v⟩ ∈ t.uses) : (s.usage v).2 = true := by
  rcases List.mem_append.1 ht with ht | ht
  · rcases List.mem_append.1 ht with ht | ht
    · obtain ⟨rfl, -⟩ := mem_taskFor ht
      obtain ⟨u, hu, he⟩ := List.mem_map.1 hv
      cases he
      exact s.sendto_ne_nil.1 (of_decide_eq_true (List.mem_filter.1 hu).2).1
    · obtain ⟨rfl, -⟩ := mem_taskFor ht
      exact absurd hv Task.not_mem_map_loc
  · obtain ⟨rfl, -⟩ := mem_taskFor ht
    rw [Task.uses, if_pos rfl] at hv
    exact absurd hv Task.not_mem_map_loc

theorem cache_readTasks {l : List Nat} (hl : l.Nodup) {t : Task}
    (ht : t ∈ onNode c (s.readTasks ord ecw l)) {v : Nat} (hv : ⟨.cache, v⟩ ∈ t.uses) :
    (s.usage v).2 = true := by
  obtain ⟨b, vs, rfl, -⟩ := mem_readTasks ecw ord c hl ht
  have hmap := List.zip_map' (l := vs) (f := id) (g := s.usage)
  rw [List.map_id] at hmap
  rw [Task.uses, if_neg (s.blkAt_ne_zero b), hmap, List.flatMap_map] at hv
  obtain ⟨u, -, hu⟩ := List.mem_flatMap.1 hv
  obtain ⟨rfl, h | h⟩ := Task.mem_usageUses.1 hu
  · cases h.1
  · exact h.2

include hd

/-- **What has a cache queue is sent**: some parent is on another node. -/
theorem cache_nodeTasks {t : Task} (ht : t ∈ s.nodeTasks ecn ecw ord c) {v : Nat}
    (hv : ⟨.cache, v⟩ ∈ t.uses) : (s.usage v).2 = true := by
  obtain ⟨level, -, ht⟩ := List.mem_flatMap.1 ht
  revert ht
  refine level_cases (s := s) (fun level => t ∈ s.levelTasksOn ecn ecw ord c level →
    (s.usage v).2 = true) ?_ ?_ ?_ level
  · intro ht
    rw [levelTasksOn_zero hd] at ht
    rcases List.mem_append.1 ht with ht | ht
    · exact cache_readTasks ord ((hd.levelAt_nodup ord 0).filter _) ht hv
    · exact cache_moveTasks ord ht hv
  · intro level h0 hlast ht
    rw [levelTasksOn_mid hd ecn ecw ord c h0 hlast] at ht
    rcases List.mem_append.1 ht with ht | ht
    · obtain ⟨rfl, -⟩ := mem_taskFor ht
      rcases List.mem_append.1 hv with hv | hv
      · exact absurd hv Task.not_mem_map_loc
      · rw [List.flatMap_map] at hv
        obtain ⟨u, -, hu⟩ := List.mem_flatMap.1 hv
        obtain ⟨rfl, h | h⟩ := Task.mem_usageUses.1 hu
        · cases h.1
        · exact h.2
    · exact cache_moveTasks ord ht hv
  · intro h0 ht
    rw [levelTasksOn_last ecn ecw ord c h0] at ht
    obtain ⟨u, -, rfl⟩ := List.mem_map.1 ht
    exact absurd hv Task.not_mem_map_loc

/-- **No two queues of a node have one key**, whatever the colours are. -/
theorem keysInjective (hkey : ∀ v, REQUESTOR ∉ s.ecdag.childIndices v) :
    KeysInjective (s.nodeTasks ecn ecw ord c) := by
  have hne : ∀ v, ⟨.cache, v⟩ ∈ (s.nodeTasks ecn ecw ord c).flatMap Task.uses → v ≠ REQUESTOR := by
    intro v hv
    obtain ⟨t, ht, hv⟩ := List.mem_flatMap.1 hv
    obtain ⟨c', -, p, hp, -⟩ := s.usage_snd.1 (cache_nodeTasks hd ord ht hv)
    rintro rfl
    exact hkey p (hd.mem_parentIds.1 hp)
  rintro ⟨role, v⟩ hv ⟨role', v'⟩ hv' hk
  cases role with
  | loc =>
    cases role' with
    | loc => rw [localKey_injective hk]
    | cache =>
      have hneg := cacheKey_neg v'
      have hpos : localKey v = cacheKey v' := hk
      unfold localKey at hpos
      omega
  | cache =>
    cases role' with
    | loc =>
      have hneg := cacheKey_neg v
      have hpos : cacheKey v = localKey v' := hk
      unfold localKey at hpos
      omega
    | cache => rw [cacheKey_inj (hne v hv) (hne v' hv') hk]

end

end Stripe

end StripeRepair

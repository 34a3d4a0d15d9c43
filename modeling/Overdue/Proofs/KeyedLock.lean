import Mathlib.Data.List.Dedup
import Mathlib.Data.List.Nodup
import Overdue.KeyedLock

/-! What holds of a keyed lock after any sections of any workers. The entries of a key stand for its registered workers:
they are there as long as there is one, with their number and with the mutex that all of them refer to, so that no two
workers are between acquire and release on one key, and nothing else keeps a worker waiting. -/
namespace Overdue
namespace KeyedLock

variable {κ ω : Type}

namespace State

variable [DecidableEq ω]

theorem mem_inPhase {workers : List (Worker κ ω)} {worker : Worker κ ω} (inside : worker ∈ workers)
    (phase : Phase) : { worker with phase } ∈ inPhase workers worker.name phase :=
  List.mem_map.mpr ⟨worker, inside, if_pos rfl⟩

theorem without_inPhase (workers : List (Worker κ ω)) (name : ω) (phase : Phase) :
    without (inPhase workers name phase) name = without workers name := by
  induction workers with
  | nil => rfl
  | cons worker others ih =>
    unfold without inPhase at ih ⊢
    rw [List.map_cons, List.filter_cons, ih, List.filter_cons]
    by_cases own : worker.name = name <;> simp [own]

end State

variable [DecidableEq κ]

namespace Entries

variable {ν : Type} (entries : Entries κ ν) (key other : κ) (value : ν)

@[simp] theorem find?_cons (entry : κ × ν) :
    find? (entry :: entries) key = if entry.1 = key then some entry.2 else find? entries key := by
  unfold find?
  rw [List.find?_cons]
  by_cases own : entry.1 = key
  · simp [own]
  · simp [own]

theorem find?_set : (entries.set key value).find? other = if other = key then some value else entries.find? other := by
  induction entries with
  | nil => simp only [set, find?_cons, eq_comm]
  | cons entry others ih =>
    unfold set
    split
    next own =>
      simp only [find?_cons, own, eq_comm (a := other)]
      split <;> rfl
    next apart =>
      rw [find?_cons, find?_cons, ih]
      split
      next found =>
        rw [if_neg]
        rintro rfl
        exact apart found
      next => rfl

theorem find?_erase : (entries.erase key).find? other = if other = key then none else entries.find? other := by
  induction entries with
  | nil => simp [erase, find?]
  | cons entry others ih =>
    unfold erase at ih ⊢
    rw [List.filter_cons]
    by_cases own : entry.1 = key
    · simp only [own, ne_eq, not_true_eq_false, decide_false, Bool.false_eq_true, if_false, ih, find?_cons, eq_comm (a := key)]
      split <;> rfl
    · simp only [own, ne_eq, not_false_eq_true, decide_true, if_true, find?_cons, ih]
      split
      next found =>
        rw [if_neg]
        rintro rfl
        exact own found
      next => rfl

theorem mem_keys_iff : key ∈ entries.keys ↔ ∃ value, entries.find? key = some value := by
  induction entries with
  | nil => simp [keys, find?]
  | cons entry others ih =>
    unfold keys at ih ⊢
    rw [List.map_cons, List.mem_cons, ih, find?_cons]
    by_cases own : entry.1 = key
    · simp [own]
    · simp [own, Ne.symm own]

theorem keys_set : (entries.set key value).keys = if key ∈ entries.keys then entries.keys else entries.keys ++ [key] := by
  induction entries with
  | nil => rfl
  | cons entry others ih =>
    unfold set
    split
    next own => simp [keys, own]
    next apart =>
      unfold keys at ih ⊢
      rw [List.map_cons, ih]
      simp only [List.map_cons, List.mem_cons, Ne.symm apart, false_or]
      split <;> rfl

theorem keys_erase : (entries.erase key).keys = entries.keys.filter (· ≠ key) := by
  unfold keys erase
  rw [List.filter_map]
  rfl

end Entries

/-- The workers between register and unregister on a key. -/
def registered (workers : List (Worker κ ω)) (key : κ) : Nat := workers.countP fun worker => worker.key = key

theorem registered_ne_zero {workers : List (Worker κ ω)} {worker : Worker κ ω} (inside : worker ∈ workers) :
    registered workers worker.key ≠ 0 := by
  unfold registered
  rw [Nat.ne_zero_iff_zero_lt, List.countP_pos_iff]
  exact ⟨worker, inside, decide_eq_true rfl⟩

namespace State

theorem mutexOf_of_found {state : State κ ω} {key : κ} {mutex : Nat} (found : state.locks.find? key = some mutex) :
    state.mutexOf key = mutex := by
  rw [mutexOf, found, Option.getD_some]

theorem mutexOf_cases (state : State κ ω) (key : κ) : state.locks.find? key = some (state.mutexOf key) ∨
    state.locks.find? key = none ∧ state.mutexOf key = state.created := by
  unfold mutexOf
  cases state.locks.find? key with
  | none => exact .inr ⟨rfl, rfl⟩
  | some mutex => exact .inl rfl

end State

/-- Sections one after another, as they interleave; none of them is blocked. -/
def run [DecidableEq ω] (state : State κ ω) (events : List (Event κ ω)) : Except Blocked (State κ ω) := events.foldlM step state

/-- The worker of a name is between acquire and release, with a mutex. -/
def HeldBy (workers : List (Worker κ ω)) (name : ω) (mutex : Nat) : Prop :=
  ∃ worker ∈ workers, worker.name = name ∧ worker.holds ∧ worker.mutex = mutex

/-- No two workers have a name, and what is kept of each key is what its workers need: one mutex, and their number. -/
structure Orderly (state : State κ ω) : Prop where
  named : (state.workers.map Worker.name).Nodup
  keys : state.counts.keys = state.locks.keys
  distinct : state.locks.keys.Nodup
  counted : ∀ key, state.counts.find? key =
    if registered state.workers key = 0 then none else some (registered state.workers key)
  referred : ∀ worker ∈ state.workers, state.locks.find? worker.key = some worker.mutex
  created : ∀ {key mutex}, state.locks.find? key = some mutex → mutex < state.created
  apart : ∀ {key other mutex}, state.locks.find? key = some mutex → state.locks.find? other = some mutex → key = other
  once : state.taken.Nodup
  taken : ∀ {mutex}, mutex ∈ state.taken ↔ ∃ name, HeldBy state.workers name mutex
  alone : ∀ {name other mutex}, HeldBy state.workers name mutex → HeldBy state.workers other mutex → name = other

namespace Orderly

variable {state after : State κ ω} {worker other : Worker κ ω} {name : ω} {key : κ} {phase : Phase} {mutex : Nat}

theorem start : Orderly ({} : State κ ω) where
  named := List.nodup_nil
  keys := rfl
  distinct := List.nodup_nil
  counted _ := rfl
  referred _ inside := by cases inside
  created found := by cases found
  apart found := by cases found
  once := List.nodup_nil
  taken := by simp [HeldBy]
  alone := by simp [HeldBy]

theorem eq_of_name (orderly : Orderly state) (inside : worker ∈ state.workers) (insideToo : other ∈ state.workers)
    (same : worker.name = other.name) : worker = other := List.inj_on_of_nodup_map orderly.named inside insideToo same

/-- A mutex is held by a worker or by another one. -/
theorem held_iff (orderly : Orderly state) (inside : worker ∈ state.workers) :
    (∃ name, HeldBy state.workers name mutex) ↔
      worker.holds ∧ worker.mutex = mutex ∨ ∃ name ≠ worker.name, HeldBy state.workers name mutex := by
  constructor
  · rintro ⟨name, held⟩
    by_cases own : name = worker.name
    · obtain ⟨holder, insideToo, rfl, holds⟩ := held
      rw [orderly.eq_of_name insideToo inside own] at holds
      exact .inl holds
    · exact .inr ⟨name, own, held⟩
  · rintro (holds | ⟨name, -, held⟩)
    · exact ⟨worker.name, worker, inside, rfl, holds⟩
    · exact ⟨name, held⟩

theorem heldBy_register {raises : Bool} {holder : ω} :
    HeldBy (state.register name key raises).workers holder mutex ↔ HeldBy state.workers holder mutex := by
  unfold HeldBy State.register
  constructor
  · rintro ⟨worker, inside, holds⟩
    rcases List.mem_append.mp inside with before | new
    · exact ⟨worker, before, holds⟩
    · rw [List.mem_singleton.mp new] at holds
      cases holds.2.1
  · rintro ⟨worker, inside, holds⟩
    exact ⟨worker, List.mem_append_left _ inside, holds⟩

theorem eq_of_holds (orderly : Orderly state) (inside : worker ∈ state.workers) (insideToo : other ∈ state.workers)
    (holds : worker.holds) (holdsToo : other.holds) (same : worker.key = other.key) : worker = other := by
  have mutex := orderly.referred worker inside
  rw [same, orderly.referred other insideToo, Option.some.injEq] at mutex
  exact orderly.eq_of_name inside insideToo
    (orderly.alone ⟨worker, inside, rfl, holds, rfl⟩ ⟨other, insideToo, rfl, holdsToo, mutex⟩)

theorem mem_keys_iff (orderly : Orderly state) : key ∈ state.locks.keys ↔ key ∈ state.workers.map Worker.key := by
  rw [← orderly.keys, Entries.mem_keys_iff, orderly.counted, List.mem_map]
  have counted : registered state.workers key ≠ 0 ↔ ∃ worker ∈ state.workers, worker.key = key := by
    simp [registered, List.countP_eq_zero]
  rw [← counted]
  split
  next none => simp [none]
  next some => simp [some]

theorem size_eq (orderly : Orderly state) : state.size = (state.workers.map Worker.key).dedup.length := by
  have same : state.locks.keys.Perm (state.workers.map Worker.key).dedup := by
    rw [List.perm_ext_iff_of_nodup orderly.distinct (List.nodup_dedup _)]
    intro key
    rw [List.mem_dedup, orderly.mem_keys_iff]
  rw [← same.length_eq, Entries.keys, List.length_map, State.size]

variable [DecidableEq ω]

theorem worker?_eq_some (orderly : Orderly state) :
    state.worker? name = some worker ↔ worker ∈ state.workers ∧ worker.name = name := by
  constructor
  · intro found
    exact ⟨List.mem_of_find?_eq_some found, by simpa using List.find?_some found⟩
  · rintro ⟨inside, rfl⟩
    unfold State.worker?
    cases found : state.workers.find? fun other => other.name = worker.name with
    | none =>
      have apart : ¬worker.name = worker.name := by simpa using List.find?_eq_none.mp found worker inside
      exact absurd rfl apart
    | some other =>
      have same : other.name = worker.name := by simpa using List.find?_some found
      rw [orderly.eq_of_name (List.mem_of_find?_eq_some found) inside same]

theorem heldBy_inPhase (orderly : Orderly state) (inside : worker ∈ state.workers) :
    HeldBy (State.inPhase state.workers worker.name phase) name mutex ↔
      if name = worker.name then ({ worker with phase } : Worker κ ω).holds ∧ worker.mutex = mutex
      else HeldBy state.workers name mutex := by
  unfold HeldBy State.inPhase
  simp only [List.mem_map, exists_exists_and_eq_and]
  constructor
  · rintro ⟨before, insideToo, named, holds⟩
    by_cases own : before.name = worker.name
    · rw [if_pos own] at named holds
      rw [orderly.eq_of_name insideToo inside own] at named holds
      rw [if_pos named.symm]
      exact holds
    · rw [if_neg own] at named holds
      rw [if_neg (named ▸ own)]
      exact ⟨before, insideToo, named, holds⟩
  · split
    next own =>
      intro holds
      refine ⟨worker, inside, ?_⟩
      rw [if_pos rfl]
      exact ⟨own.symm, holds⟩
    next own =>
      rintro ⟨before, insideToo, rfl, holds⟩
      refine ⟨before, insideToo, ?_⟩
      rw [if_neg own]
      exact ⟨rfl, holds⟩

/-- A worker that goes on to its next section keeps its name, its key and its mutex; only what is taken can change. -/
theorem moved (orderly : Orderly state) (inside : worker ∈ state.workers) {taken : List Nat} (once : taken.Nodup)
    (held : ∀ mutex, mutex ∈ taken ↔ ({ worker with phase } : Worker κ ω).holds ∧ worker.mutex = mutex ∨
      ∃ name ≠ worker.name, HeldBy state.workers name mutex)
    (alone : ({ worker with phase } : Worker κ ω).holds → ∀ name ≠ worker.name, ¬HeldBy state.workers name worker.mutex) :
    Orderly { state with taken, workers := State.inPhase state.workers worker.name phase } where
  named := by
    have same : (State.inPhase state.workers worker.name phase).map Worker.name = state.workers.map Worker.name := by
      unfold State.inPhase
      rw [List.map_map]
      refine List.map_congr_left fun other _ => ?_
      rw [Function.comp_apply]
      split <;> rfl
    rw [same]
    exact orderly.named
  keys := orderly.keys
  distinct := orderly.distinct
  counted key := by
    have same : registered (State.inPhase state.workers worker.name phase) key = registered state.workers key := by
      unfold registered State.inPhase
      rw [List.countP_map]
      refine List.countP_congr fun other _ => ?_
      rw [Function.comp_apply]
      split <;> rfl
    rw [same]
    exact orderly.counted key
  referred other insideToo := by
    obtain ⟨before, was, rfl⟩ := List.mem_map.mp insideToo
    have referred := orderly.referred before was
    split <;> exact referred
  created := orderly.created
  apart := orderly.apart
  once := once
  taken {mutex} := by
    rw [held]
    simp only [orderly.heldBy_inPhase inside]
    constructor
    · rintro (holds | ⟨name, own, holds⟩)
      · exact ⟨worker.name, by rwa [if_pos rfl]⟩
      · exact ⟨name, by rwa [if_neg own]⟩
    · rintro ⟨name, holds⟩
      split at holds
      next => exact .inl holds
      next own => exact .inr ⟨name, own, holds⟩
  alone {name other mutex} := by
    rw [orderly.heldBy_inPhase inside, orderly.heldBy_inPhase inside]
    split
    next own =>
      rintro ⟨holds, rfl⟩ holdsToo
      split at holdsToo
      next ownToo => rw [own, ownToo]
      next ownToo => exact absurd holdsToo (alone holds other ownToo)
    next own =>
      intro holds holdsToo
      split at holdsToo
      next ownToo =>
        obtain ⟨holdsToo, rfl⟩ := holdsToo
        exact absurd holds (alone holdsToo name own)
      next => exact orderly.alone holds holdsToo

theorem acquire (orderly : Orderly state) (inside : worker ∈ state.workers) (waits : worker.phase = .waiting)
    (free : worker.mutex ∉ state.taken) :
    Orderly { state with
      taken := worker.mutex :: state.taken
      workers := State.inPhase state.workers worker.name .inside } := by
  have idle : worker.holds = false := by simp [Worker.holds, waits]
  have holds : ({ worker with phase := .inside } : Worker κ ω).holds = true := rfl
  refine orderly.moved inside (List.nodup_cons.mpr ⟨free, orderly.once⟩) (fun mutex => ?_) fun _ name _ held => ?_
  · rw [List.mem_cons, orderly.taken, orderly.held_iff inside, idle, holds, eq_comm]
    simp only [Bool.false_eq_true, false_and, false_or, true_and]
  · exact free (orderly.taken.mpr ⟨name, held⟩)

theorem body (orderly : Orderly state) (inside : worker ∈ state.workers) (runs : worker.phase = .inside) :
    Orderly { state with workers := State.inPhase state.workers worker.name .done } := by
  have holder : worker.holds = true := by simp [Worker.holds, runs]
  have holds : ({ worker with phase := .done } : Worker κ ω).holds = true := rfl
  refine orderly.moved inside orderly.once (fun mutex => ?_) fun _ name own held => ?_
  · rw [orderly.taken, orderly.held_iff inside, holder, holds]
  · exact own (orderly.alone held ⟨worker, inside, rfl, holder, rfl⟩)

theorem release (orderly : Orderly state) (inside : worker ∈ state.workers) (ended : worker.phase = .done) :
    Orderly { state with
      taken := state.taken.erase worker.mutex
      workers := State.inPhase state.workers worker.name .leaving } := by
  have holder : worker.holds = true := by simp [Worker.holds, ended]
  refine orderly.moved inside (orderly.once.erase _) (fun mutex => ?_) fun left => by cases left
  rw [orderly.once.mem_erase_iff, orderly.taken, orderly.held_iff inside]
  constructor
  · rintro ⟨apart, ⟨-, same⟩ | others⟩
    · exact absurd same.symm apart
    · exact .inr others
  · rintro (⟨left, -⟩ | ⟨name, own, held⟩)
    · cases left
    · refine ⟨?_, .inr ⟨name, own, held⟩⟩
      rintro rfl
      exact own (orderly.alone held ⟨worker, inside, rfl, holder, rfl⟩)

theorem register (orderly : Orderly state) (absent : state.worker? name = none) (raises : Bool) :
    Orderly (state.register name key raises) where
  named := by
    have others : ∀ worker ∈ state.workers, worker.name ≠ name := by simpa [State.worker?] using absent
    simp only [State.register, List.map_append, List.map_cons, List.map_nil]
    refine List.Nodup.append orderly.named (List.nodup_singleton name) ?_
    rw [List.disjoint_singleton]
    rintro member
    obtain ⟨worker, inside, same⟩ := List.mem_map.mp member
    exact others worker inside same
  keys := by
    unfold State.register
    rw [Entries.keys_set, Entries.keys_set, orderly.keys]
  distinct := by
    unfold State.register
    rw [Entries.keys_set]
    split
    next => exact orderly.distinct
    next new => exact List.Nodup.append orderly.distinct (List.nodup_singleton key) (List.disjoint_singleton.mpr new)
  counted other := by
    have more : registered (state.register name key raises).workers other =
        registered state.workers other + if other = key then 1 else 0 := by
      simp [registered, State.register, List.countP_append, List.countP_singleton, eq_comm]
    rw [more]
    unfold State.register
    rw [Entries.find?_set, orderly.counted, orderly.counted]
    by_cases own : other = key
    · subst own
      by_cases first : registered state.workers other = 0
      · simp [first]
      · simp [first]
    · simp [own]
  referred worker inside := by
    unfold State.register at inside ⊢
    rw [Entries.find?_set]
    rcases List.mem_append.mp inside with before | new
    · have referred := orderly.referred worker before
      split
      next own =>
        rw [own] at referred
        rw [State.mutexOf_of_found referred]
      next => exact referred
    · rw [List.mem_singleton.mp new, if_pos rfl]
  created {other mutex} found := by
    unfold State.register at found ⊢
    rw [Entries.find?_set] at found
    split at found
    next =>
      cases found
      exact Nat.lt_of_lt_of_le (Nat.lt_succ_self _) (Nat.le_max_right _ _)
    next => exact Nat.lt_of_lt_of_le (orderly.created found) (Nat.le_max_left _ _)
  apart {one two mutex} found foundToo := by
    have fresh {other : κ} (known : state.locks.find? other = some (state.mutexOf key)) : other = key := by
      rcases state.mutexOf_cases key with own | ⟨-, next⟩
      · exact orderly.apart known own
      · exact absurd next (Nat.ne_of_lt (orderly.created known))
    unfold State.register at found foundToo
    rw [Entries.find?_set] at found foundToo
    split at found <;> split at foundToo
    next own ownToo => rw [own, ownToo]
    next own _ =>
      cases found
      rw [own, fresh foundToo]
    next _ own =>
      cases foundToo
      rw [own, fresh found]
    next => exact orderly.apart found foundToo
  once := orderly.once
  taken := by
    simp only [heldBy_register]
    exact orderly.taken
  alone := by
    simp only [heldBy_register]
    exact orderly.alone

theorem perm_without (orderly : Orderly state) (inside : worker ∈ state.workers) :
    state.workers.Perm (worker :: State.without state.workers worker.name) := by
  have distinct := orderly.named.of_map
  rw [List.perm_ext_iff_of_nodup distinct]
  · intro other
    simp only [State.without, List.mem_cons, List.mem_filter, ne_eq, decide_eq_true_eq]
    constructor
    · intro insideToo
      by_cases own : other.name = worker.name
      · exact .inl (orderly.eq_of_name insideToo inside own)
      · exact .inr ⟨insideToo, own⟩
    · rintro (rfl | ⟨insideToo, -⟩)
      · exact inside
      · exact insideToo
  · rw [List.nodup_cons]
    refine ⟨fun member => ?_, distinct.filter _⟩
    simpa using (List.mem_filter.mp member).2

theorem registered_without (orderly : Orderly state) (inside : worker ∈ state.workers) (key : κ) :
    registered state.workers key =
      registered (State.without state.workers worker.name) key + if worker.key = key then 1 else 0 := by
  unfold registered
  rw [(orderly.perm_without inside).countP_eq, List.countP_cons]
  simp only [decide_eq_true_eq]

/-- A worker that has let go of its mutex takes nothing with it but its place in the entries of its key. -/
theorem left (orderly : Orderly state) (inside : worker ∈ state.workers) (leaves : worker.phase = .leaving)
    {counts locks : Entries κ Nat} (keys : counts.keys = locks.keys) (distinct : locks.keys.Nodup)
    (counted : ∀ key, counts.find? key = if registered (State.without state.workers worker.name) key = 0 then none
      else some (registered (State.without state.workers worker.name) key))
    (known : ∀ {key mutex}, locks.find? key = some mutex → state.locks.find? key = some mutex)
    (needed : ∀ other ∈ State.without state.workers worker.name, locks.find? other.key = state.locks.find? other.key) :
    Orderly { state with counts, locks, workers := State.without state.workers worker.name } := by
  have idle : ¬worker.holds := by simp [Worker.holds, leaves]
  have held {name : ω} {mutex : Nat} :
      HeldBy (State.without state.workers worker.name) name mutex ↔ HeldBy state.workers name mutex := by
    unfold HeldBy
    refine exists_congr fun other => and_congr_left fun ⟨_, holds, _⟩ => ?_
    have apart : other ∈ state.workers → other.name ≠ worker.name := by
      intro insideToo own
      rw [orderly.eq_of_name insideToo inside own] at holds
      exact idle holds
    simpa [State.without] using apart
  constructor
  case named => exact orderly.named.sublist (List.filter_sublist.map _)
  case keys => exact keys
  case distinct => exact distinct
  case counted => exact counted
  case referred =>
    intro other stays
    rw [needed other stays]
    exact orderly.referred other (List.mem_filter.mp stays).1
  case created => exact fun found => orderly.created (known found)
  case apart => exact fun found foundToo => orderly.apart (known found) (known foundToo)
  case once => exact orderly.once
  case taken =>
    simp only [held]
    exact orderly.taken
  case alone =>
    simp only [held]
    exact orderly.alone

theorem unregister (orderly : Orderly state) (inside : worker ∈ state.workers) (leaves : worker.phase = .leaving) :
    ∃ after, state.unregister worker = .ok after ∧ after.workers = State.without state.workers worker.name ∧
      Orderly after := by
  have fewer := orderly.registered_without inside
  have count := orderly.counted worker.key
  rw [if_neg (registered_ne_zero inside), fewer, if_pos rfl] at count
  unfold State.unregister
  rw [count, orderly.referred worker inside]
  dsimp only
  rw [Nat.add_sub_cancel]
  split
  next last =>
    refine ⟨_, rfl, rfl, orderly.left inside leaves ?_ ?_ (fun key => ?_) ?_ fun other stays => ?_⟩
    · rw [Entries.keys_erase, Entries.keys_erase, orderly.keys]
    · rw [Entries.keys_erase]
      exact orderly.distinct.filter _
    · rw [Entries.find?_erase]
      by_cases own : key = worker.key
      · rw [own, if_pos rfl, if_pos last]
      · rw [if_neg own, orderly.counted, fewer, if_neg (Ne.symm own), Nat.add_zero]
    · intro key mutex found
      rw [Entries.find?_erase] at found
      split at found
      next => cases found
      next => exact found
    · rw [Entries.find?_erase, if_neg]
      intro own
      exact registered_ne_zero stays (own ▸ last)
  next others =>
    have present : worker.key ∈ state.counts.keys := (Entries.mem_keys_iff _ _).mpr ⟨_, count⟩
    refine ⟨_, rfl, rfl, orderly.left inside leaves ?_ orderly.distinct (fun key => ?_) id fun _ _ => rfl⟩
    · rw [Entries.keys_set, if_pos present, orderly.keys]
    · rw [Entries.find?_set]
      by_cases own : key = worker.key
      · rw [own, if_pos rfl, if_neg others]
      · rw [if_neg own, orderly.counted, fewer, if_neg (Ne.symm own), Nat.add_zero]

theorem step (orderly : Orderly state) {event : Event κ ω} (stepped : KeyedLock.step state event = .ok after) :
    Orderly after := by
  cases event with
  | register name key raises =>
    cases found : state.worker? name with
    | none =>
      simp only [KeyedLock.step, found, Except.ok.injEq] at stepped
      exact stepped ▸ orderly.register found raises
    | some worker => simp [KeyedLock.step, found] at stepped
  | acquire name =>
    cases found : state.worker? name with
    | none => simp [KeyedLock.step, found] at stepped
    | some worker =>
      obtain ⟨inside, rfl⟩ := orderly.worker?_eq_some.mp found
      simp only [KeyedLock.step, found] at stepped
      split at stepped
      next free =>
        cases stepped
        exact orderly.acquire inside free.1 free.2
      next => cases stepped
  | body name =>
    cases found : state.worker? name with
    | none => simp [KeyedLock.step, found] at stepped
    | some worker =>
      obtain ⟨inside, rfl⟩ := orderly.worker?_eq_some.mp found
      simp only [KeyedLock.step, found] at stepped
      split at stepped
      next runs =>
        cases stepped
        exact orderly.body inside runs
      next => cases stepped
  | release name =>
    cases found : state.worker? name with
    | none => simp [KeyedLock.step, found] at stepped
    | some worker =>
      obtain ⟨inside, rfl⟩ := orderly.worker?_eq_some.mp found
      simp only [KeyedLock.step, found] at stepped
      split at stepped
      next ended =>
        cases stepped
        exact orderly.release inside ended
      next => cases stepped
  | unregister name =>
    cases found : state.worker? name with
    | none => simp [KeyedLock.step, found] at stepped
    | some worker =>
      obtain ⟨inside, rfl⟩ := orderly.worker?_eq_some.mp found
      simp only [KeyedLock.step, found] at stepped
      split at stepped
      next leaves =>
        obtain ⟨left, same, -, kept⟩ := orderly.unregister inside leaves
        rw [same] at stepped
        cases stepped
        exact kept
      next => cases stepped

theorem run (orderly : Orderly state) {events : List (Event κ ω)} (ran : KeyedLock.run state events = .ok after) :
    Orderly after := by
  induction events generalizing state with
  | nil =>
    cases ran
    exact orderly
  | cons event events ih =>
    rw [KeyedLock.run, List.foldlM_cons] at ran
    cases stepped : KeyedLock.step state event with
    | error blocked =>
      rw [stepped] at ran
      cases ran
    | ok next =>
      rw [stepped] at ran
      exact ih (orderly.step stepped) ran

/-- Different keys have different mutexes, so only a worker on the same key can be in the way. -/
theorem acquire_enabled_iff (orderly : Orderly state) (inside : worker ∈ state.workers) (waits : worker.phase = .waiting) :
    (∃ after, KeyedLock.step state (.acquire worker.name) = .ok after) ↔
      ∀ other ∈ state.workers, other.key = worker.key → ¬other.holds := by
  have free : worker.mutex ∉ state.taken ↔ ∀ other ∈ state.workers, other.key = worker.key → ¬other.holds := by
    rw [orderly.taken]
    constructor
    · intro free other insideToo same holds
      have mutex := orderly.referred worker inside
      rw [← same, orderly.referred other insideToo, Option.some.injEq] at mutex
      exact free ⟨other.name, other, insideToo, rfl, holds, mutex⟩
    · rintro idle ⟨name, other, insideToo, -, holds, mutex⟩
      have referred := orderly.referred other insideToo
      rw [mutex] at referred
      exact idle other insideToo (orderly.apart referred (orderly.referred worker inside)) holds
  rw [← free]
  simp only [KeyedLock.step, orderly.worker?_eq_some.mpr ⟨inside, rfl⟩, waits, true_and]
  by_cases held : worker.mutex ∈ state.taken <;> simp [held]

theorem not_missing (orderly : Orderly state) (name : ω) :
    KeyedLock.step state (.unregister name) ≠ .error .missingKey := by
  cases found : state.worker? name with
  | none => simp [KeyedLock.step, found]
  | some worker =>
    obtain ⟨inside, rfl⟩ := orderly.worker?_eq_some.mp found
    simp only [KeyedLock.step, found]
    split
    next leaves =>
      obtain ⟨after, left, -⟩ := orderly.unregister inside leaves
      simp [left]
    next => simp

/-- A worker that has its mutex leaves by itself, whether its body returns or raises. -/
theorem leaves (orderly : Orderly state) (inside : worker ∈ state.workers) (runs : worker.phase = .inside) :
    ∃ after, KeyedLock.run state [.body worker.name, .release worker.name, .unregister worker.name] = .ok after ∧
      after.workers = State.without state.workers worker.name := by
  have ended := orderly.body inside runs
  have insideEnded := State.mem_inPhase inside .done
  have released := ended.release insideEnded rfl
  have insideReleased := State.mem_inPhase insideEnded .leaving
  obtain ⟨after, left, workers, -⟩ := released.unregister insideReleased rfl
  refine ⟨after, ?_, ?_⟩
  · simp [KeyedLock.run, KeyedLock.step, bind, Except.bind, pure, Except.pure, orderly.worker?_eq_some.mpr ⟨inside, rfl⟩, runs,
      ended.worker?_eq_some.mpr ⟨insideEnded, rfl⟩, released.worker?_eq_some.mpr ⟨insideReleased, rfl⟩, left]
  · rw [workers]
    simp only [State.without_inPhase]

end Orderly

/-- After any sections of any workers in any order, no two workers are between acquire and release on one key. The two
tables have the same keys: those of the registered workers, each with their number and with the one mutex that all of
them refer to. No worker finds its key missing when it unregisters; one that waits is held up only by a worker on its own
key; and one that runs its body leaves by itself, whether the body returns or raises. -/
theorem serialized [DecidableEq ω] {events : List (Event κ ω)} {state : State κ ω} (ran : run {} events = .ok state) :
    (∀ worker ∈ state.workers, ∀ other ∈ state.workers, worker.holds → other.holds → worker.key = other.key →
      worker = other) ∧
    (state.counts.keys = state.locks.keys ∧ state.locks.keys.Nodup) ∧
    (∀ key, state.counts.find? key =
      if registered state.workers key = 0 then none else some (registered state.workers key)) ∧
    (∀ worker ∈ state.workers, state.locks.find? worker.key = some worker.mutex) ∧
    (∀ name, step state (.unregister name) ≠ .error .missingKey) ∧
    (∀ worker ∈ state.workers, worker.phase = .waiting → ((∃ after, step state (.acquire worker.name) = .ok after) ↔
      ∀ other ∈ state.workers, other.key = worker.key → ¬other.holds)) ∧
    (∀ worker ∈ state.workers, worker.phase = .inside →
      ∃ after, run state [.body worker.name, .release worker.name, .unregister worker.name] = .ok after ∧
        after.workers = State.without state.workers worker.name) ∧
    state.size = (state.workers.map Worker.key).dedup.length ∧ (state.workers = [] → state.size = 0) := by
  have orderly := Orderly.start.run ran
  refine ⟨fun worker inside other insideToo => orderly.eq_of_holds inside insideToo, ⟨orderly.keys, orderly.distinct⟩,
    orderly.counted, orderly.referred, orderly.not_missing, fun worker => orderly.acquire_enabled_iff,
    fun worker => orderly.leaves, orderly.size_eq, fun none => ?_⟩
  rw [orderly.size_eq, none]
  rfl

/-- The second worker of a key waits until the body of the first has raised; a third holds another key all the while. -/
def handover : List (Event Nat Nat) :=
  [.register 1 7 true, .acquire 1, .register 2 7 false, .register 3 8 false, .acquire 3, .body 1, .release 1]

theorem serialized_handover : ∃ state, run {} handover = .ok state ∧ state.size = 2 ∧
    ∃ after, step state (.acquire 2) = .ok after := by
  obtain ⟨-, -, -, -, -, acquires, -, size, -⟩ := serialized (rfl : run {} handover = .ok _)
  refine ⟨_, rfl, size.trans rfl, (acquires ⟨2, 7, 0, .waiting, false⟩ ?_ rfl).mpr ?_⟩
  · decide
  · decide

end KeyedLock
end Overdue

/-! A lock with one mutex per key. A worker that holds a key goes through five atomic sections: it registers (which
creates the mutex of the key if there is none), acquires the mutex, runs its body, releases the mutex and unregisters
(which drops the mutex with its last worker). The steps of different workers interleave in any order. -/
namespace Overdue
namespace KeyedLock

abbrev Entries (κ ν : Type) := List (κ × ν)

namespace Entries

variable {κ ν : Type} [DecidableEq κ]

def find? (entries : Entries κ ν) (key : κ) : Option ν := (List.find? (fun entry => entry.1 = key) entries).map Prod.snd

def set (key : κ) (value : ν) : Entries κ ν → Entries κ ν
  | [] => [(key, value)]
  | entry :: others => if entry.1 = key then (key, value) :: others else entry :: set key value others

def erase (entries : Entries κ ν) (key : κ) : Entries κ ν := entries.filter fun entry => entry.1 ≠ key

def keys (entries : Entries κ ν) : List κ := entries.map Prod.fst

end Entries

inductive Phase where
  /-- Registered, the mutex not yet acquired. -/
  | waiting
  /-- The mutex acquired, the body running. -/
  | inside
  /-- The body returned or raised, the mutex still held. -/
  | done
  /-- The mutex released, still registered. -/
  | leaving
deriving DecidableEq, Repr

/-- A registered worker with its reference to a mutex; its body returns or raises. -/
structure Worker (κ ω : Type) where
  name : ω
  key : κ
  mutex : Nat
  phase : Phase
  raises : Bool
deriving DecidableEq, Repr

/-- Between acquire and release. -/
def Worker.holds {κ ω : Type} (worker : Worker κ ω) : Bool := worker.phase = .inside || worker.phase = .done

/-- Mutexes are numbered in the order of their creation. -/
structure State (κ ω : Type) where
  locks : Entries κ Nat := []
  counts : Entries κ Nat := []
  taken : List Nat := []
  created : Nat := 0
  workers : List (Worker κ ω) := []
deriving Repr

inductive Event (κ ω : Type) where
  | register (worker : ω) (key : κ) (raises : Bool)
  | acquire (worker : ω)
  | body (worker : ω)
  | release (worker : ω)
  | unregister (worker : ω)
deriving DecidableEq, Repr

inductive Blocked where
  /-- The worker is not at this section, or the mutex is taken. -/
  | disabled
  /-- The entries of the key are gone. -/
  | missingKey
deriving DecidableEq, Repr

variable {κ ω : Type} [DecidableEq κ] [DecidableEq ω]

namespace State

def worker? (state : State κ ω) (name : ω) : Option (Worker κ ω) := state.workers.find? fun worker => worker.name = name

def size (state : State κ ω) : Nat := state.locks.length

def inPhase (workers : List (Worker κ ω)) (name : ω) (phase : Phase) : List (Worker κ ω) :=
  workers.map fun worker => if worker.name = name then { worker with phase } else worker

def without (workers : List (Worker κ ω)) (name : ω) : List (Worker κ ω) :=
  workers.filter fun worker => worker.name ≠ name

/-- The mutex of a key, created on demand. -/
def mutexOf (state : State κ ω) (key : κ) : Nat := (state.locks.find? key).getD state.created

def register (state : State κ ω) (name : ω) (key : κ) (raises : Bool) : State κ ω :=
  let mutex := state.mutexOf key
  { state with
    locks := state.locks.set key mutex
    counts := state.counts.set key ((state.counts.find? key).getD 0 + 1)
    created := max state.created (mutex + 1)
    workers := state.workers ++ [⟨name, key, mutex, .waiting, raises⟩] }

/-- Takes one worker off a key, and drops the entries of the key with the last. -/
def unregister (state : State κ ω) (worker : Worker κ ω) : Except Blocked (State κ ω) :=
  match state.counts.find? worker.key, state.locks.find? worker.key with
  | some count, some _ =>
    let workers := without state.workers worker.name
    if count - 1 = 0 then
      .ok { state with counts := state.counts.erase worker.key, locks := state.locks.erase worker.key, workers }
    else .ok { state with counts := state.counts.set worker.key (count - 1), workers }
  | _, _ => .error .missingKey

end State

def step (state : State κ ω) : Event κ ω → Except Blocked (State κ ω)
  | .register name key raises =>
    match state.worker? name with
    | none => .ok (state.register name key raises)
    | some _ => .error .disabled
  | .acquire name =>
    match state.worker? name with
    | some worker =>
      if worker.phase = .waiting ∧ worker.mutex ∉ state.taken then
        .ok { state with taken := worker.mutex :: state.taken, workers := State.inPhase state.workers name .inside }
      else .error .disabled
    | none => .error .disabled
  | .body name =>
    match state.worker? name with
    | some worker =>
      if worker.phase = .inside then .ok { state with workers := State.inPhase state.workers name .done }
      else .error .disabled
    | none => .error .disabled
  | .release name =>
    match state.worker? name with
    | some worker =>
      if worker.phase = .done then
        .ok { state with taken := state.taken.erase worker.mutex, workers := State.inPhase state.workers name .leaving }
      else .error .disabled
    | none => .error .disabled
  | .unregister name =>
    match state.worker? name with
    | some worker => if worker.phase = .leaving then state.unregister worker else .error .disabled
    | none => .error .disabled

end KeyedLock
end Overdue

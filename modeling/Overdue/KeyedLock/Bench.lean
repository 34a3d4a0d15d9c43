import Overdue.KeyedLock

/-! Workers that hold keys of a keyed lock and let go of them on demand. Every worker that can acquire its mutex does
so at once. -/
namespace Overdue
namespace KeyedLock
namespace Bench

variable {κ ω : Type} [DecidableEq κ] [DecidableEq ω]

def attempt (state : State κ ω) (event : Event κ ω) : State κ ω := (step state event).toOption.getD state

/-- Lets the waiting workers acquire what they can, in the order in which they came. -/
def settle (state : State κ ω) : State κ ω :=
  state.workers.foldl (fun state worker => attempt state (.acquire worker.name)) state

def hold (state : State κ ω) (name : ω) (key : κ) (raises : Bool) : State κ ω :=
  settle (attempt state (.register name key raises))

/-- Lets a worker run to its end; whether its body raised comes with the state. -/
def letGo (state : State κ ω) (name : ω) : State κ ω × Bool :=
  let raised := ((state.worker? name).map Worker.raises).getD false
  (settle ([.body name, .release name, .unregister name].foldl attempt state), raised)

def finish (state : State κ ω) : State κ ω :=
  (List.range state.workers.length).foldl
    (fun state _ => state.workers.foldl (fun state worker => (letGo state worker.name).1) state) state

end Bench
end KeyedLock
end Overdue

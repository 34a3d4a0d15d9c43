import Overdue.Store.Session

/-! The course of work on a store with nothing pending: the tables at each commit that it attempts, its result and the
tables it leaves. A fault strikes one of the attempts and leaves the tables of that attempt, so that the course says
how the work ends under every fault. -/
namespace Overdue
namespace Work

variable {α β : Type} {tables middle after : Tables} {attempts more : List Tables}

def ending (fault : Option Nat) (attempts : List Tables) (result : Except Failure α) (after : Tables) :
    EStateM.Result Failure Session α :=
  match fault.bind fun n => attempts[n]? with
  | some tables => .error .commitFailed { stored := tables }
  | none =>
    let session : Session := { stored := after, faultAfter := fault.map (· - attempts.length) }
    match result with
    | .ok value => .ok value session
    | .error failure => .error failure session

def Runs (work : Work α) (tables : Tables) (attempts : List Tables) (result : Except Failure α) (after : Tables) : Prop :=
  ∀ fault, work { stored := tables, faultAfter := fault } = ending fault attempts result after

/-- The course of work that starts at some tables satisfies a condition. -/
def Yields (work : Work α) (tables : Tables) (post : List Tables → Except Failure α → Tables → Prop) : Prop :=
  ∃ attempts result after, Runs work tables attempts result after ∧ post attempts result after

theorem ending_nil (fault : Option Nat) (result : Except Failure α) (after : Tables) :
    ending fault [] result after = match result with
      | .ok value => .ok value { stored := after, faultAfter := fault }
      | .error failure => .error failure { stored := after, faultAfter := fault } := by
  cases fault <;> simp [ending]

/-- Work ends with its course: under a fault that strikes, with what was stored at that attempt. -/
theorem perform_eq {work : Work α} {result : Except Failure α} (runs : Runs work tables attempts result after)
    (fault : Option Nat) : perform work fault { stored := tables } = match fault.bind fun n => attempts[n]? with
      | some left => (.error .commitFailed, { stored := left })
      | none => (result, { stored := after }) := by
  have ends := runs fault
  simp only [perform, EStateM.run, ends, ending]
  cases fault.bind fun n => attempts[n]? with
  | some left => rfl
  | none => cases result <;> rfl

theorem runs_bind {x : Work α} {f : α → Work β} {value : α} {result : Except Failure β}
    (first : Runs x tables attempts (.ok value) middle) (rest : Runs (f value) middle more result after) :
    Runs (x >>= f) tables (attempts ++ more) result after := by
  intro fault
  change EStateM.bind x f _ = _
  rw [EStateM.bind, first fault]
  cases fault with
  | none => simpa [ending] using rest none
  | some n =>
    by_cases struck : n < attempts.length
    · simp [ending, struck, List.getElem?_append_left struck]
    · have beyond : attempts.length ≤ n := Nat.le_of_not_lt struck
      have later := rest (some (n - attempts.length))
      simp only [ending, Option.bind_some, Option.map_some, List.getElem?_append_right beyond, List.length_append,
        List.getElem?_eq_none beyond, Nat.sub_sub] at later ⊢
      exact later

theorem runs_bind_error {x : Work α} {f : α → Work β} {failure : Failure}
    (first : Runs x tables attempts (.error failure) after) : Runs (x >>= f) tables attempts (.error failure) after := by
  intro fault
  change EStateM.bind x f _ = _
  rw [EStateM.bind, first fault]
  unfold ending
  cases fault.bind fun n => attempts[n]? <;> rfl

theorem runs_pure (value : α) (tables : Tables) : Runs (pure value) tables [] (.ok value) tables :=
  fun fault => (ending_nil fault (.ok value) tables).symm

theorem runs_discard {x : Work α} {result : Except Failure α} (runs : Runs x tables attempts result after) :
    Runs (discard x) tables attempts (result.map fun _ => ()) after := by
  intro fault
  change EStateM.map _ x _ = _
  rw [EStateM.map, runs fault]
  unfold ending
  cases fault.bind fun n => attempts[n]? <;> cases result <;> rfl

theorem runs_throw (failure : Failure) (tables : Tables) :
    Runs (throw failure : Work α) tables [] (.error failure) tables :=
  fun fault => (ending_nil fault (.error failure) tables).symm

theorem runs_lift (result : Except Failure α) (tables : Tables) : Runs (lift result) tables [] result tables := by
  cases result with
  | ok value => exact runs_pure value tables
  | error failure => exact runs_throw failure tables

theorem runs_stored (tables : Tables) : Runs stored tables [] (.ok tables) tables :=
  fun fault => (ending_nil fault (.ok tables) tables).symm

theorem runs_mapM {f : α → Work β} {g : α → Except Failure β} (each : ∀ a, Runs (f a) tables [] (g a) tables)
    (list : List α) : Runs (list.mapM f) tables [] (list.mapM g) tables := by
  induction list with
  | nil => exact runs_pure _ _
  | cons first others ih =>
    rw [List.mapM_cons, List.mapM_cons]
    have head := each first
    generalize g first = result at head ⊢
    cases result with
    | error failure => exact runs_bind_error head
    | ok value =>
      refine runs_bind head ?_
      generalize others.mapM g = results at ih ⊢
      cases results with
      | error failure => exact runs_bind_error ih
      | ok values => exact runs_bind ih (runs_pure _ _)

def within (n : Int) (value : α) : Except Failure α := if fitsWord n then .ok value else .error .cellTooWide

theorem within_eq_ok {n : Int} {value read : α} : within n value = .ok read ↔ fitsWord n = true ∧ value = read := by
  unfold within
  cases fitsWord n <;> simp

theorem within_eq_error {n : Int} {value : α} {failure : Failure} :
    within n value = .error failure ↔ fitsWord n = false ∧ .cellTooWide = failure := by
  unfold within
  cases fitsWord n <;> simp

theorem runs_require (n : Int) (tables : Tables) : Runs (require n) tables [] (within n ()) tables := by
  unfold require within
  split
  · exact runs_pure _ _
  · exact runs_throw _ _

theorem runs_asked {n : Int} {value : α} {read : Work α} (reads : Runs read tables [] (.ok value) tables) :
    Runs (do require n; read) tables [] (within n value) tables := by
  have asked := runs_require n tables
  unfold within at asked ⊢
  split at asked
  next fits => rw [if_pos fits]; exact runs_bind asked reads
  next wide => rw [if_neg wide]; exact runs_bind_error asked

theorem runs_assignment? (id : Int) (tables : Tables) :
    Runs (assignment? id) tables [] (within id (tables.assignment? id)) tables :=
  runs_asked fun fault => (ending_nil fault (.ok (tables.assignment? id)) tables).symm

theorem runs_submission? (id : Int) (tables : Tables) :
    Runs (submission? id) tables [] (within id (tables.submission? id)) tables :=
  runs_asked fun fault => (ending_nil fault (.ok (tables.submission? id)) tables).symm

theorem runs_late? (id : Int) (tables : Tables) : Runs (late? id) tables [] (within id (tables.late? id)) tables :=
  runs_asked fun fault => (ending_nil fault (.ok (tables.late? id)) tables).symm

def save (change : Write) : Work Unit := do
  write change
  commit

theorem save_eq_commit (change : Write) (tables : Tables) (fault : Option Nat) :
    save change { stored := tables, faultAfter := fault } =
      commit { stored := tables, pending := [change], faultAfter := fault } := rfl

theorem runs_save {change : Write} (saved : tables.apply change = .ok after) :
    Runs (save change) tables [tables] (.ok ()) after := by
  intro fault
  have all : tables.applyAll [change] = .ok after := by simp [Tables.applyAll, saved]
  rw [save_eq_commit]
  rcases fault with _ | _ | n <;> simp [commit, ending, Session.rolledBack, all]

theorem runs_save_error {change : Write} {failure : Failure} (refused : tables.apply change = .error failure) :
    Runs (save change) tables [tables] (.error failure) tables := by
  intro fault
  have all : tables.applyAll [change] = .error failure := by simp [Tables.applyAll, refused]
  rw [save_eq_commit]
  rcases fault with _ | _ | n <;> simp [commit, ending, Session.rolledBack, all]

section Yields

variable {post : List Tables → Except Failure α → Tables → Prop}

theorem yields_pure {value : α} (holds : post [] (.ok value) tables) : Yields (pure value) tables post :=
  ⟨_, _, _, runs_pure value tables, holds⟩

theorem yields_throw {failure : Failure} (holds : post [] (.error failure) tables) :
    Yields (throw failure) tables post := ⟨_, _, _, runs_throw failure tables, holds⟩

theorem yields_read {x : Work β} {f : β → Work α} {result : Except Failure β} (reads : Runs x tables [] result tables)
    (failed : ∀ failure, result = .error failure → post [] (.error failure) tables)
    (passed : ∀ value, result = .ok value → Yields (f value) tables post) : Yields (x >>= f) tables post := by
  cases result with
  | error failure => exact ⟨_, _, _, runs_bind_error reads, failed failure rfl⟩
  | ok value =>
    obtain ⟨attempts, result, after, runs, holds⟩ := passed value rfl
    exact ⟨_, _, _, runs_bind reads runs, holds⟩

theorem yields_last {x : Work β} {f : β → α} {result : Except Failure β} (reads : Runs x tables [] result tables)
    (holds : post [] (result.map f) tables) : Yields (do return f (← x)) tables post := by
  cases result with
  | error failure => exact ⟨_, _, _, runs_bind_error reads, holds⟩
  | ok value => exact ⟨_, _, _, runs_bind reads (runs_pure _ _), holds⟩

theorem yields_bind {x : Work β} {f : β → Work α} {inner : List Tables → Except Failure β → Tables → Prop}
    (first : Yields x tables inner)
    (failed : ∀ attempts failure after, inner attempts (.error failure) after → post attempts (.error failure) after)
    (passed : ∀ attempts value middle, inner attempts (.ok value) middle →
      Yields (f value) middle fun more result after => post (attempts ++ more) result after) :
    Yields (x >>= f) tables post := by
  obtain ⟨attempts, result, middle, runs, holds⟩ := first
  cases result with
  | error failure => exact ⟨_, _, _, runs_bind_error runs, failed _ _ _ holds⟩
  | ok value =>
    obtain ⟨more, result, after, rest, holds⟩ := passed _ _ _ holds
    exact ⟨_, _, _, runs_bind runs rest, holds⟩

theorem yields_save {change : Write} {rest : Work α}
    (refused : ∀ failure, tables.apply change = .error failure → post [tables] (.error failure) tables)
    (saved : ∀ after, tables.apply change = .ok after →
      Yields rest after fun more result last => post (tables :: more) result last) :
    Yields (do write change; commit; rest) tables post := by
  have whole : (do write change; commit; rest) = save change >>= fun _ => rest := (bind_assoc _ _ _).symm
  rw [whole]
  cases stored : tables.apply change with
  | error failure => exact ⟨_, _, _, runs_bind_error (runs_save_error stored), refused failure stored⟩
  | ok after =>
    obtain ⟨more, result, last, runs, holds⟩ := saved after stored
    exact ⟨_, _, _, runs_bind (runs_save stored) runs, holds⟩

end Yields

end Work
end Overdue

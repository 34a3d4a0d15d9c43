import Overdue.Penalty
import Overdue.Score

/-! How computations fail. Everything that reads an instant or a calendar fails in one way only, where the years end;
a score fails in one way only, where a quotient has no number. Neither is mistaken for a commit that fails. -/
namespace Overdue
namespace Failure

variable {ε α β : Type}

theorem bind_eq_ok {x : Except ε α} {f : α → Except ε β} {result : β} :
    (x >>= f) = .ok result ↔ ∃ value, x = .ok value ∧ f value = .ok result := by
  cases x <;> simp [bind, Except.bind]

theorem bind_of_ok {x : Except ε α} {value : α} (found : x = .ok value) (f : α → Except ε β) :
    (x >>= f) = f value := by
  rw [found]
  rfl

/-- Where the rest always returns, the first part decides. -/
theorem bind_returns_iff {x : Except ε α} {f : α → Except ε β} (rest : ∀ value, ∃ result, f value = .ok result) :
    (∃ result, (x >>= f) = .ok result) ↔ ∃ value, x = .ok value := by
  simp only [bind_eq_ok]
  constructor
  · rintro ⟨_, value, found, _⟩
    exact ⟨value, found⟩
  · rintro ⟨value, found⟩
    obtain ⟨result, returned⟩ := rest value
    exact ⟨result, value, found, returned⟩

theorem map_eq_ok {x : Except ε α} {f : α → β} {result : β} :
    x.map f = .ok result ↔ ∃ value, x = .ok value ∧ f value = result := by
  cases x <;> simp [Except.map]

theorem map_eq_error {x : Except ε α} {f : α → β} {error : ε} : x.map f = .error error ↔ x = .error error := by
  cases x <;> simp [Except.map]

theorem mapM_eq_ok {f : α → Except ε β} {list : List α} {results : List β} :
    list.mapM f = .ok results ↔ list.map f = results.map .ok := by
  induction list generalizing results with
  | nil =>
    rw [List.mapM_nil, List.map_nil, List.nil_eq, List.map_eq_nil_iff]
    exact ⟨fun same => (Except.ok.inj same).symm, fun empty => congrArg Except.ok empty.symm⟩
  | cons first others ih =>
    rw [List.mapM_cons, bind_eq_ok, List.map_cons]
    constructor
    · rintro ⟨value, found, rest⟩
      obtain ⟨values, foundAll, same⟩ := bind_eq_ok.mp rest
      cases same
      rw [found, List.map_cons, ih.mp foundAll]
    · intro all
      cases results with
      | nil => cases all
      | cons value values =>
        rw [List.map_cons, List.cons.injEq] at all
        exact ⟨value, all.1, bind_eq_ok.mpr ⟨values, ih.mpr all.2, rfl⟩⟩

theorem mapM_returns_iff {f : α → Except ε β} {list : List α} :
    (∃ results, list.mapM f = .ok results) ↔ ∀ a ∈ list, ∃ result, f a = .ok result := by
  induction list with
  | nil => exact iff_of_true ⟨[], rfl⟩ (by simp)
  | cons first others ih =>
    rw [List.forall_mem_cons, ← ih, List.mapM_cons]
    simp only [bind_eq_ok]
    constructor
    · rintro ⟨_, value, found, values, foundAll, _⟩
      exact ⟨⟨value, found⟩, values, foundAll⟩
    · rintro ⟨⟨value, found⟩, values, foundAll⟩
      exact ⟨_, value, found, values, foundAll, rfl⟩

theorem mapM_append_eq_error {f : α → Except ε β} {list more : List α} {error : ε} : (list ++ more).mapM f = .error error ↔
    list.mapM f = .error error ∨ (∃ results, list.mapM f = .ok results) ∧ more.mapM f = .error error := by
  rw [List.mapM_append]
  cases list.mapM f with
  | error other => simp [bind, Except.bind]
  | ok values => cases more.mapM f <;> simp [bind, Except.bind, pure, Except.pure]

theorem mapM_cons_eq_error {f : α → Except ε β} {head : α} {others : List α} {error : ε} :
    (head :: others).mapM f = .error error ↔
      f head = .error error ∨ (∃ result, f head = .ok result) ∧ others.mapM f = .error error := by
  rw [List.mapM_cons]
  cases f head with
  | error other => simp [bind, Except.bind]
  | ok value => cases others.mapM f <;> simp [bind, Except.bind, pure, Except.pure]

/-- A list fails at the first of its elements that does. -/
theorem mapM_eq_error {f : α → Except ε β} {list : List α} {error : ε} : list.mapM f = .error error ↔
    ∃ before first after, list = before ++ first :: after ∧ (∀ a ∈ before, ∃ result, f a = .ok result) ∧ f first = .error error := by
  induction list with
  | nil =>
    refine iff_of_false (by rintro ⟨⟩) ?_
    rintro ⟨before, first, after, split, _⟩
    simp at split
  | cons head others ih =>
    rw [mapM_cons_eq_error, ih]
    constructor
    · rintro (failed | ⟨returned, before, first, after, rfl, each, failed⟩)
      · exact ⟨[], head, others, rfl, by simp, failed⟩
      · exact ⟨head :: before, first, after, rfl, List.forall_mem_cons.mpr ⟨returned, each⟩, failed⟩
    · rintro ⟨before, first, after, split, each, failed⟩
      cases before with
      | nil =>
        cases split
        exact .inl failed
      | cons earlier before =>
        cases split
        rw [List.forall_mem_cons] at each
        exact .inr ⟨each.1, before, first, after, rfl, each.2, failed⟩

/-- What a test accepts; where it fails it accepts nothing. -/
def holds : Except Failure Bool → Bool
  | .ok chosen => chosen
  | .error _ => false

theorem holds_eq_true {x : Except Failure Bool} : holds x = true ↔ x = .ok true := by
  cases x <;> simp [holds]

private theorem filterAuxM_eq {f : α → Except Failure Bool} {list before kept : List α}
    (ok : list.filterAuxM f before = .ok kept) : kept = (list.filter fun a => holds (f a)).reverse ++ before := by
  induction list generalizing before with
  | nil =>
    cases ok
    rfl
  | cons first others ih =>
    obtain ⟨chosen, found, rest⟩ := bind_eq_ok.mp ok
    rw [ih rest, List.filter_cons, found]
    cases chosen <;> simp [holds]

theorem filterM_eq {f : α → Except Failure Bool} {list kept : List α} (ok : list.filterM f = .ok kept) :
    kept = list.filter fun a => holds (f a) := by
  obtain ⟨reversed, filtered, same⟩ := bind_eq_ok.mp ok
  cases same
  rw [filterAuxM_eq filtered, List.append_nil, List.reverse_reverse]

/-- A filter keeps the order and exactly what its test accepts. -/
theorem filterM_ok {f : α → Except Failure Bool} {list kept : List α} (ok : list.filterM f = .ok kept) :
    kept.Sublist list ∧ ∀ a, a ∈ kept ↔ a ∈ list ∧ f a = .ok true := by
  rw [filterM_eq ok]
  exact ⟨List.filter_sublist, fun a => by rw [List.mem_filter, holds_eq_true]⟩

private theorem filterAuxM_returns_iff {f : α → Except Failure Bool} {list : List α} (before : List α) :
    (∃ kept, list.filterAuxM f before = .ok kept) ↔ ∀ a ∈ list, ∃ chosen, f a = .ok chosen := by
  induction list generalizing before with
  | nil => exact iff_of_true ⟨before, rfl⟩ (by simp)
  | cons first others ih =>
    rw [List.forall_mem_cons, List.filterAuxM]
    simp only [bind_eq_ok]
    constructor
    · rintro ⟨kept, chosen, found, rest⟩
      exact ⟨⟨chosen, found⟩, (ih _).mp ⟨kept, rest⟩⟩
    · rintro ⟨⟨chosen, found⟩, each⟩
      obtain ⟨kept, rest⟩ := (ih _).mpr each
      exact ⟨kept, chosen, found, rest⟩

theorem filterM_returns_iff {f : α → Except Failure Bool} {list : List α} :
    (∃ kept, list.filterM f = .ok kept) ↔ ∀ a ∈ list, ∃ chosen, f a = .ok chosen :=
  (bind_returns_iff fun reversed => ⟨reversed.reverse, rfl⟩).trans (filterAuxM_returns_iff [])

theorem anyM_of_ok {f : α → Except Failure Bool} {g : α → Bool} {list : List α} (each : ∀ a ∈ list, f a = .ok (g a)) :
    list.anyM f = .ok (list.any g) := by
  induction list with
  | nil => rfl
  | cons first others ih =>
    obtain ⟨found, rest⟩ := List.forall_mem_cons.mp each
    rw [List.anyM, bind_of_ok found, List.any_cons]
    cases g first with
    | true => rfl
    | false => exact ih rest

/-- A computation that fails in one way only. -/
def Only (failure : Failure) (result : Except Failure α) : Prop := ∀ other, result = .error other → other = failure

variable {failure : Failure}

theorem only_ok (value : α) : Only failure (.ok value) := fun _ impossible => by cases impossible

theorem only_error : Only failure (.error failure : Except Failure α) := fun _ same => by cases same; rfl

theorem only_bind {x : Except Failure α} {f : α → Except Failure β} (first : Only failure x)
    (rest : ∀ value, Only failure (f value)) : Only failure (x >>= f) := by
  intro other failed
  cases x with
  | error earlier => cases failed; exact first _ rfl
  | ok value => exact rest value other failed

theorem only_map {x : Except Failure α} {f : α → β} (first : Only failure x) : Only failure (x.map f) := by
  intro other failed
  cases x with
  | error earlier => cases failed; exact first _ rfl
  | ok value => cases failed

theorem only_mapM {f : α → Except Failure β} (each : ∀ a, Only failure (f a)) (list : List α) :
    Only failure (list.mapM f) := by
  induction list with
  | nil => exact only_ok []
  | cons first others ih =>
    rw [List.mapM_cons]
    exact only_bind (each first) fun _ => only_bind ih fun _ => only_ok _

private theorem only_filterAuxM {f : α → Except Failure Bool} (each : ∀ a, Only failure (f a)) (list kept : List α) :
    Only failure (list.filterAuxM f kept) := by
  induction list generalizing kept with
  | nil => exact only_ok kept
  | cons first others ih => exact only_bind (each first) fun _ => ih _

theorem only_filterM {f : α → Except Failure Bool} (each : ∀ a, Only failure (f a)) (list : List α) :
    Only failure (list.filterM f) := only_bind (only_filterAuxM each list []) fun _ => only_ok _

end Failure

open Failure

theorem Reading.shift_only (reading : Reading) (micros : Int) : Only .outOfRange (reading.shift micros) := by
  unfold Reading.shift
  dsimp only
  split
  · exact only_ok _
  · exact only_error

theorem Timestamp.utc_only (instant : Timestamp) : Only .outOfRange instant.utc := by
  unfold Timestamp.utc
  split
  · exact only_ok _
  · exact Reading.shift_only _ _

theorem Policy.due?_only (policy : Policy) : Only .outOfRange policy.due? := by
  unfold Policy.due?
  split
  · exact only_ok _
  · exact only_map (Timestamp.utc_only _)

theorem Policy.effectiveDue_only (policy : Policy) : Only .outOfRange policy.effectiveDue := by
  refine only_bind policy.due?_only fun due => ?_
  cases due with
  | none => exact only_ok _
  | some due => exact only_bind (Reading.shift_only _ _) fun _ => only_ok _

theorem Policy.isLate_only (policy : Policy) (finished : Timestamp) : Only .outOfRange (policy.isLate finished) := by
  refine only_bind policy.effectiveDue_only fun limit => ?_
  cases limit with
  | none => exact only_ok _
  | some limit => exact only_bind (Timestamp.utc_only _) fun _ => only_ok _

theorem Calendar.dateAt_only (calendar : Calendar) (utc : Reading) : Only .outOfRange (calendar.dateAt utc) :=
  only_map (Reading.shift_only _ _)

theorem Penalty.days_only (due finished : Timestamp) : Only .outOfRange (Penalty.days due finished) := by
  refine only_bind (only_bind (Timestamp.utc_only _) fun utc => only_bind ?_ fun _ => only_ok _) fun run =>
    only_mapM (fun _ => Reading.shift_only _ _) _
  exact only_bind (Timestamp.utc_only _) fun _ => only_bind (Reading.shift_only _ _) fun _ => only_ok _

theorem Penalty.percentage_only (terms : Terms) (finished : Timestamp) (calendar : Calendar) :
    Only .outOfRange (Penalty.percentage terms finished calendar) := by
  refine only_bind (Timestamp.utc_only _) fun due => ?_
  cases terms.applied with
  | false => exact only_ok _
  | true =>
    refine only_bind (Timestamp.utc_only _) fun done => only_bind (Reading.shift_only _ _) fun limit => ?_
    split
    · exact only_ok _
    · exact only_bind (Penalty.days_only _ _) fun _ =>
        only_bind (only_filterM (fun _ => only_map (Calendar.dateAt_only _ _)) _) fun _ => only_ok _

theorem Score.adjust_only (raw : Double) (percentage : Int) : Only .quotientTooLarge (Score.adjust raw percentage) := by
  refine only_map ?_
  unfold Score.kept
  cases Double.quotient? percentage 100 with
  | none => exact only_error
  | some quotient => exact only_ok _

end Overdue

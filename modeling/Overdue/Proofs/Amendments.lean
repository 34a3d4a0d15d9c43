import Overdue.Proofs.Overrun
import Overdue.Proofs.WellFormed

/-! Changes of a policy, one after another. A change sets the columns that it sends in one row, so that two of them come to
the change that sends the fields of both, and where no field is sent by both their order is of no account. -/
namespace Overdue

open Failure

variable {members earlier later : Members} {name : String} {first second change : PolicyChange}
  {row : Assignment} {middle policy : Policy}

def Members.Apart (earlier later : Members) : Prop :=
  ∀ name ∈ PolicyForm.names, Json.lookup? earlier name = none ∨ Json.lookup? later name = none

/-- A column is what was sent of it, as its reader takes it, or what it was. -/
def Column {α : Type} (members : Members) (name : String) (reader : Field.Reader α) (before after : α) : Prop :=
  match Json.lookup? members name with
  | none => after = before
  | some json => reader json = .ok after

/-- The columns of a policy that were sent are set, the due instant as an instant, and the others stay. -/
structure Columns (members : Members) (before after : Policy) : Prop where
  dueAt : match Json.lookup? members dueName with
    | none => after.dueAt = before.dueAt
    | some json => ∃ due, Field.nullable Field.instant json = .ok due ∧
        after.dueAt.map Timestamp.utc = due.map Timestamp.utc
  applied : Column members appliedName Field.boolean before.applied after.applied
  daily : Column members dailyName Field.percentage before.daily after.daily
  cap : Column members capName Field.percentage before.cap after.cap
  preventResubmission : Column members preventName Field.boolean before.preventResubmission after.preventResubmission

namespace PolicyChange

theorem column {α : Type} {reader : Field.Reader α} {value : Option α}
    (accepted : sent members name reader = .accepted (value.map some)) (before : α) :
    Column members name reader before (value.getD before) := by
  have taken := sent_map_some accepted
  unfold Column
  cases looked : Json.lookup? members name with
  | none =>
    rw [looked] at taken
    rw [taken]
    rfl
  | some json =>
    rw [looked] at taken
    obtain ⟨read, reads, same⟩ := taken
    rw [same]
    exact reads

theorem sent_none {α : Type} {reader : Field.Reader α} {value : Option (Option α)} (unsent : Json.lookup? members name = none)
    (accepted : sent members name reader = .accepted value) : value = none := by
  rw [sent_eq_accepted, unsent] at accepted
  exact accepted

theorem or_comm_of_apart {α : Type} {reader : Field.Reader α} {value other : Option (Option α)} (apart : earlier.Apart later)
    (named : name ∈ PolicyForm.names) (accepted : sent earlier name reader = .accepted value)
    (acceptedToo : sent later name reader = .accepted other) : other.or value = value.or other := by
  rcases apart name named with unsent | unsent
  · rw [sent_none unsent accepted, Option.none_or, Option.or_none]
  · rw [sent_none unsent acceptedToo, Option.none_or, Option.or_none]

theorem or_comm_of_apart_some {α : Type} {reader : Field.Reader α} {value other : Option α} (apart : earlier.Apart later)
    (named : name ∈ PolicyForm.names) (accepted : sent earlier name reader = .accepted (value.map some))
    (acceptedToo : sent later name reader = .accepted (other.map some)) : other.or value = value.or other := by
  have same := or_comm_of_apart apart named accepted acceptedToo
  rw [← Option.map_or, ← Option.map_or] at same
  exact Option.map_injective (Option.some_injective α) same

theorem merge_comm (apart : earlier.Apart later) (accepted : read earlier = .accepted first)
    (acceptedToo : read later = .accepted second) : first.merge second = second.merge first := by
  obtain ⟨dues, applies, charges, caps, prevents⟩ := read_eq_accepted.mp accepted
  obtain ⟨duesToo, appliesToo, chargesToo, capsToo, preventsToo⟩ := read_eq_accepted.mp acceptedToo
  simp only [merge, PolicyChange.mk.injEq]
  exact ⟨or_comm_of_apart apart (by decide) dues duesToo, or_comm_of_apart_some apart (by decide) applies appliesToo,
    or_comm_of_apart_some apart (by decide) charges chargesToo, or_comm_of_apart_some apart (by decide) caps capsToo,
    or_comm_of_apart_some apart (by decide) prevents preventsToo⟩

end PolicyChange

theorem Policy.overruns_congr {other : Policy} (same : policy.dueAt = other.dueAt) : policy.Overruns ↔ other.Overruns := by
  unfold Overruns due?
  rw [same]

namespace Service

/-- A change that is let in leaves this policy of a row. -/
inductive Amends (row : Assignment) (change : PolicyChange) : Policy → Prop
  | intro {policy : Policy} (inside : outside? row change.dueAt = .ok none) (made : changed row.policy change = .ok policy)
    (fits : policy.fits = true) : Amends row change policy.stored

theorem dueAfter_merge {last : Policy} {dueAt : Option Timestamp} (dues : dueAfter policy first = .ok dueAt)
    (middle : Policy) (kept : middle.dueAt = dueAt.map Timestamp.stored) (duesToo : dueAfter middle second = .ok last.dueAt) :
    ∃ due, dueAfter policy (first.merge second) = .ok due ∧ due.map Timestamp.stored = last.dueAt.map Timestamp.stored := by
  unfold dueAfter PolicyChange.merge at *
  cases sent : second.dueAt with
  | some due =>
    rw [sent] at duesToo
    exact ⟨last.dueAt, duesToo, rfl⟩
  | none =>
    rw [sent] at duesToo
    refine ⟨dueAt, dues, ?_⟩
    rw [← Except.ok.inj duesToo, kept]
    simp [Function.comp_def]

theorem dueAfter_returns (inside : outside? row change.dueAt = .ok none) : ∃ dueAt, dueAfter row.policy change = .ok dueAt := by
  unfold dueAfter
  generalize change.dueAt = sent at inside ⊢
  rcases sent with _ | _ | dueAt
  · exact ⟨_, rfl⟩
  · exact ⟨none, rfl⟩
  · obtain ⟨due, dueUtc, _⟩ := bind_eq_ok.mp inside
    refine ⟨some (.ofUtc due), ?_⟩
    simp [inUtc?, inUtc, dueUtc, Except.map]

namespace Amends

theorem unique {other : Policy} (amends : Amends row change policy) (again : Amends row change other) : policy = other := by
  obtain ⟨_, made, _⟩ := amends
  obtain ⟨_, madeToo, _⟩ := again
  cases made.symm.trans madeToo
  rfl

theorem inside (amends : Amends row change policy) : outside? row change.dueAt = .ok none := by
  obtain ⟨inside, _⟩ := amends
  exact inside

theorem fits (amends : Amends row change policy) : policy.fits = true := by
  obtain ⟨_, _, fits⟩ := amends
  exact fits

/-- Two changes come to the one that sends the fields of both. -/
theorem merge (amends : Amends row first middle) (amendsToo : Amends { row with policy := middle } second policy) :
    Amends row (first.merge second) policy := by
  obtain @⟨made, inside, changes, _⟩ := amends
  obtain @⟨last, insideToo, changesToo, fits⟩ := amendsToo
  obtain ⟨dues, applied, daily, cap, prevent⟩ := changed_eq_ok.mp changes
  obtain ⟨duesToo, appliedToo, dailyToo, capToo, preventToo⟩ := changed_eq_ok.mp changesToo
  obtain ⟨dueAt, duesBoth, kept⟩ := dueAfter_merge dues made.stored rfl duesToo
  have insideBoth : outside? row (first.merge second).dueAt = .ok none := by
    unfold PolicyChange.merge
    cases sent : second.dueAt with
    | some due =>
      rw [sent] at insideToo
      exact insideToo
    | none => exact inside
  have changesBoth : changed row.policy (first.merge second) = .ok { last with dueAt } := by
    refine changed_eq_ok.mpr ⟨duesBoth, ?_, ?_, ?_, ?_⟩ <;> unfold PolicyChange.merge <;> rw [Option.getD_or]
    · exact appliedToo.trans (congrArg second.applied.getD applied)
    · exact dailyToo.trans (congrArg second.daily.getD daily)
    · exact capToo.trans (congrArg second.cap.getD cap)
    · exact preventToo.trans (congrArg second.preventResubmission.getD prevent)
  have same : ({ last with dueAt } : Policy).stored = last.stored := by
    rw [Policy.stored, kept]
    rfl
  rw [← same]
  exact .intro insideBoth changesBoth fits

theorem dueAt_kept (amends : Amends row change policy) (unsent : change.dueAt = none) (whole : row.stored? = some row) :
    policy.dueAt = row.policy.dueAt := by
  obtain ⟨_, made, _⟩ := amends
  obtain ⟨dues, _⟩ := changed_eq_ok.mp made
  rw [dueAfter, unsent] at dues
  obtain ⟨_, _, kept⟩ := Assignment.stored?_eq_some.mp whole
  have stored : row.policy.dueAt.map Timestamp.stored = row.policy.dueAt := (congrArg (·.policy.dueAt) kept).symm
  rw [← stored, Except.ok.inj dues]
  rfl

/-- A change that was read is let in exactly if its due instant is within the limits of the row. -/
theorem exists_iff (fits : row.policy.fits = true) (read : PolicyChange.read members = .accepted change) :
    (∃ policy, Amends row change policy) ↔ outside? row change.dueAt = .ok none := by
  have bounded {sent : Option Int} {before : Int} (bounds : ∀ n, sent = some n → 0 ≤ n ∧ n ≤ 100)
      (old : fitsWord before = true) : fitsWord (sent.getD before) = true := by
    cases sent with
    | none => exact old
    | some n => exact fitsWord_of_percentage (bounds n rfl).1 (bounds n rfl).2
  constructor
  · rintro ⟨_, inside, _⟩
    exact inside
  · intro inside
    obtain ⟨dailyBounds, capBounds⟩ := PolicyChange.read_bounds read
    obtain ⟨dailyFits, capFits⟩ := Bool.and_eq_true_iff.mp fits
    obtain ⟨dueAt, dues⟩ := dueAfter_returns inside
    have made : changed row.policy change = .ok ⟨dueAt, change.applied.getD row.policy.applied,
        change.daily.getD row.policy.daily, change.cap.getD row.policy.cap,
        change.preventResubmission.getD row.policy.preventResubmission⟩ := changed_eq_ok.mpr ⟨dues, rfl, rfl, rfl, rfl⟩
    exact ⟨_, .intro inside made (Bool.and_eq_true_iff.mpr ⟨bounded dailyBounds dailyFits, bounded capBounds capFits⟩)⟩

theorem whole (amends : Amends row change policy) (kept : row.stored? = some row) :
    ({ row with policy } : Assignment).stored? = some { row with policy } := by
  obtain ⟨_, _, _⟩ := amends
  exact Assignment.stored?_stored? (Assignment.stored?_policy kept _)

/-- Changes that send different fields are let in the other way round too, and come to the same. -/
theorem swap (amends : Amends row first middle) (amendsToo : Amends { row with policy := middle } second policy)
    (fits : row.policy.fits = true) (read : PolicyChange.read earlier = .accepted first)
    (readToo : PolicyChange.read later = .accepted second) (apart : earlier.Apart later) :
    ∃ between, Amends row second between ∧ Amends { row with policy := between } first policy := by
  -- the limits are those of the row, whatever its policy is by then
  obtain ⟨between, sooner⟩ := (exists_iff fits readToo).mpr amendsToo.inside
  obtain ⟨last, later⟩ : ∃ last, Amends { row with policy := between } first last :=
    (exists_iff sooner.fits read).mpr amends.inside
  have both := amends.merge amendsToo
  rw [PolicyChange.merge_comm apart read readToo] at both
  cases both.unique (sooner.merge later)
  exact ⟨between, sooner, later⟩

/-- Of changes that send different fields only one sends a due instant, which the policy in between has or will have. -/
theorem within_between {between : Policy} (sooner : Amends row second between)
    (last : Amends { row with policy := between } first policy) (kept : row.stored? = some row)
    (read : PolicyChange.read earlier = .accepted first) (readToo : PolicyChange.read later = .accepted second)
    (apart : earlier.Apart later) (graced : ¬row.policy.Overruns) (within : ¬policy.Overruns) : ¬between.Overruns := by
  obtain ⟨dues, _⟩ := PolicyChange.read_eq_accepted.mp read
  obtain ⟨duesToo, _⟩ := PolicyChange.read_eq_accepted.mp readToo
  rcases apart dueName (by decide) with unsent | unsent
  · have same := last.dueAt_kept (PolicyChange.sent_none unsent dues) (sooner.whole kept)
    rwa [← Policy.overruns_congr same]
  · have same := sooner.dueAt_kept (PolicyChange.sent_none unsent duesToo) kept
    rwa [Policy.overruns_congr same]

theorem columns (amends : Amends row change policy) (read : PolicyChange.read members = .accepted change)
    (whole : row.stored? = some row) : Columns members row.policy policy := by
  obtain ⟨dues, applies, charges, caps, prevents⟩ := PolicyChange.read_eq_accepted.mp read
  have unsent : change.dueAt = none → policy.dueAt = row.policy.dueAt := fun unsent => amends.dueAt_kept unsent whole
  obtain ⟨_, made, _⟩ := amends
  obtain ⟨due, applied, daily, cap, prevent⟩ := changed_eq_ok.mp made
  refine ⟨?_, ?_, ?_, ?_, ?_⟩
  · rw [PolicyChange.sent_eq_accepted] at dues
    cases looked : Json.lookup? members dueName with
    | none =>
      rw [looked] at dues
      exact unsent dues
    | some json =>
      rw [looked] at dues
      obtain ⟨filled, reads, same⟩ := dues
      rw [dueAfter, same] at due
      exact ⟨filled, reads, inUtc?_stored due⟩
  · exact applied ▸ PolicyChange.column applies row.policy.applied
  · exact daily ▸ PolicyChange.column charges row.policy.daily
  · exact cap ▸ PolicyChange.column caps row.policy.cap
  · exact prevent ▸ PolicyChange.column prevents row.policy.preventResubmission

end Amends
end Service

/-- Tables with another policy at one assignment, and no other change. -/
structure Amended (tables after : Tables) (row : Assignment) (policy : Policy) : Prop where
  stored : after.assignment? row.id = some { row with policy }
  others : ∀ other ≠ row.id, after.assignment? other = tables.assignment? other
  submissions : after.submissions = tables.submissions
  lateRecords : after.lateRecords = tables.lateRecords

variable {tables between after : Tables} {context : Context} {id : Int}

namespace Amended

theorem trans (amended : Amended tables between row middle)
    (amendedToo : Amended between after { row with policy := middle } policy) : Amended tables after row policy where
  stored := amendedToo.stored
  others other apart := (amendedToo.others other apart).trans (amended.others other apart)
  submissions := amendedToo.submissions.trans amended.submissions
  lateRecords := amendedToo.lateRecords.trans amended.lateRecords

theorem unique {last : Tables} (amended : Amended tables after row policy) (again : Amended tables last row policy)
    (sound : Sound after) (soundToo : Sound last) : after = last := by
  have assignments : after.assignments = last.assignments := by
    apply sound.assignments.ext soundToo.assignments
    intro id
    by_cases own : id = row.id
    · rw [own]
      exact amended.stored.trans again.stored.symm
    · exact (amended.others id own).trans (again.others id own).symm
  have submissions := amended.submissions.trans again.submissions.symm
  have lateRecords := amended.lateRecords.trans again.lateRecords.symm
  cases after
  cases last
  simp_all

end Amended

namespace Service

theorem amends_of_answer {fault : Option Nat} {view : AssignmentView}
    (replied : (answer context fault (.changePolicy id change) tables).1 = .ok (.assignment view)) :
    ∃ row policy, tables.assignment? id = some row ∧ Amends row change policy := by
  obtain ⟨attempts, after, answered⟩ := answer_unstruck replied (by simp)
  generalize ended : Except.ok (Reply.assignment view) = result at answered
  cases answered with
  | wide | missing | undecided | outside | unread | unsaved => cases ended
  | saved found inside made saved keeps =>
    obtain ⟨fits, _⟩ := Tables.putAssignment_eq_ok.mp saved
    exact ⟨_, _, found, .intro inside made (Bool.and_eq_true_iff.mp fits).2⟩

/-- A change that is let in is stored, and it is answered with the assignment unless the years end before its grace. -/
theorem answer_amended (sound : Sound tables) (fitting : Fitting tables) (found : tables.assignment? id = some row)
    (amends : Amends row change policy) (context : Context) :
    Amended tables (answer context none (.changePolicy id change) tables).2 row policy ∧
      ((∃ view, (answer context none (.changePolicy id change) tables).1 = .ok (.assignment view)) ↔ ¬policy.Overruns) := by
  obtain @⟨last, inside, made, fits⟩ := amends
  have whole := sound.assignment found
  have number := fitting.assignment_number found
  obtain rfl := Table.find?_key found
  have keeps := Assignment.stored?_policy whole last
  have keepsAgain := Assignment.stored?_stored? keeps
  obtain ⟨attempts, result, after, runs, answered⟩ := perform_yields context (.changePolicy row.id change) tables
  have ended : answer context none (.changePolicy row.id change) tables = (result, after) := answer_eq runs none
  rw [ended]
  cases answered with
  | wide wide => cases number.symm.trans wide
  | missing absent => cases found.symm.trans absent
  | undecided foundToo failed =>
    cases found.symm.trans foundToo
    cases inside.symm.trans failed
  | outside foundToo outside =>
    cases found.symm.trans foundToo
    cases inside.symm.trans outside
  | unread foundToo _ failed =>
    cases found.symm.trans foundToo
    cases made.symm.trans failed
  | unsaved foundToo _ madeToo refused =>
    cases found.symm.trans foundToo
    cases made.symm.trans madeToo
    obtain ⟨_, saved⟩ : ∃ after, tables.putAssignment { row with policy := last } = .ok after :=
      ⟨_, Tables.putAssignment_eq_ok.mpr ⟨Bool.and_eq_true_iff.mpr ⟨number, fits⟩, _, keeps, rfl⟩⟩
    cases refused.symm.trans saved
  | saved foundToo _ madeToo saved keepsToo =>
    cases found.symm.trans foundToo
    cases made.symm.trans madeToo
    cases keeps.symm.trans keepsToo
    obtain ⟨_, keptToo, read⟩ := Tables.assignment?_put saved
    cases keeps.symm.trans keptToo
    obtain ⟨_, _, _, rfl⟩ := Tables.putAssignment_eq_ok.mp saved
    obtain ⟨due, stands⟩ := Assignment.due?_of_stored keepsAgain
    refine ⟨⟨(read row.id).trans (if_pos rfl), fun other apart => (read other).trans (if_neg apart), rfl, rfl⟩, ?_⟩
    exact viewAssignment_returns_iff stands context

end Service

/-- A request that sends these members to change a policy, with no fault. -/
structure Event.Patches (event : Event) (id : Int) (members : Members) : Prop where
  method : event.request.method = .patch
  path : ∃ text, Place.ofSegments? event.request.path = some (.policy text) ∧ Field.integerOfText text = .ok id
  body : event.request.body = .value (.obj members)
  unstruck : event.faultAfter = none

namespace Event.Patches

variable {event : Event}

theorem call (patches : event.Patches id members) : event.request.call =
    .ok (Call.ofChecked (((PolicyChange.read members).under "body").map (Call.changePolicy id))) := by
  obtain ⟨text, path, number⟩ := patches.path
  rw [Request.call, path, patches.method, patches.body]
  simp only [Call.ofPlace, Call.assignmentNumber, Call.number, number, Body.fill, Body.members]
  cases PolicyChange.read members <;> rfl

theorem asks (patches : event.Patches id members) (read : PolicyChange.read members = .accepted change) :
    event.Asks event.context.calendar (.changePolicy id change) := by
  refine ⟨?_, rfl, patches.unstruck⟩
  rw [patches.call, read]
  rfl

end Event.Patches

namespace History

variable {event : Event} {history : List Event}

def Shown (event : Event) (earlier : List Event) : Prop := ∃ view, answer event earlier = .ok (.assignment view)

instance decidableShown (event : Event) (earlier : List Event) : Decidable (Shown event earlier) :=
  match replied : answer event earlier with
  | .ok (.assignment view) => .isTrue ⟨view, replied⟩
  | .error _ | .ok .healthy | .ok (.created _) | .ok (.regraded _ _) | .ok (.started _) | .ok (.submission _)
  | .ok (.submissions _) | .ok (.penalty _ _ _) | .ok (.refused _) =>
    .isFalse fun ⟨_, other⟩ => by cases replied.symm.trans other

theorem amended (patches : event.Patches id members) (read : PolicyChange.read members = .accepted change)
    (found : (History.tables history).assignment? id = some row) (amends : Service.Amends row change policy) :
    Amended (History.tables history) (History.tables (event :: history)) row policy ∧
      (Shown event history ↔ ¬policy.Overruns) := by
  obtain ⟨same, reached⟩ := answer_asked (patches.asks read) history
  rw [Shown, same, reached]
  exact Service.answer_amended (sound history) (fitting history) found amends event.context

theorem Shown.amends (patches : event.Patches id members) (shown : Shown event history) :
    ∃ change row policy, PolicyChange.read members = .accepted change ∧ (History.tables history).assignment? id = some row ∧
      Service.Amends row change policy := by
  obtain ⟨view, replied⟩ := shown
  cases read : PolicyChange.read members with
  | rejected problems =>
    rw [answer, Service.serve, patches.call, read] at replied
    cases replied
  | accepted change =>
    rw [(answer_asked (patches.asks read) history).1] at replied
    obtain ⟨row, policy, found, amends⟩ := Service.amends_of_answer replied
    exact ⟨change, row, policy, rfl, found, amends⟩

variable {first second : Event}

theorem Shown.twice (sends : first.Patches id earlier) (sendsToo : second.Patches id later) (shown : Shown first history)
    (shownToo : Shown second (first :: history)) :
    ∃ before after row middle policy, PolicyChange.read earlier = .accepted before ∧
      PolicyChange.read later = .accepted after ∧ (History.tables history).assignment? id = some row ∧
      Service.Amends row before middle ∧ Service.Amends { row with policy := middle } after policy ∧
      Amended (History.tables history) (History.tables (first :: history)) row middle ∧
      Amended (History.tables (first :: history)) (History.tables (second :: first :: history))
        { row with policy := middle } policy ∧ ¬policy.Overruns := by
  obtain ⟨before, row, middle, read, found, amends⟩ := shown.amends sends
  obtain ⟨after, kept, policy, readToo, foundToo, amendsToo⟩ := shownToo.amends sendsToo
  obtain rfl := Table.find?_key found
  obtain ⟨amended, _⟩ := History.amended sends read found amends
  cases amended.stored.symm.trans foundToo
  obtain ⟨amendedToo, told⟩ := History.amended sendsToo readToo foundToo amendsToo
  exact ⟨before, after, row, middle, policy, read, readToo, found, amends, amendsToo, amended, amendedToo, told.mp shownToo⟩

/-- Two changes of a policy that are answered one after the other set the columns that they send, and nothing else. One change
that sends the fields of both, those of the later where both send one, is answered too and leaves the same tables. If no field
is sent by both, they leave the same the other way round; the one that is then first is answered as well where the assignment
could be shown before. -/
theorem changes_compose (sends : first.Patches id earlier) (sendsToo : second.Patches id later) (shown : Shown first history)
    (shownToo : Shown second (first :: history)) :
    (∃ row middle policy, (History.tables history).assignment? id = some row ∧ Columns earlier row.policy middle ∧
      Columns later middle policy ∧ Amended (History.tables history) (History.tables (first :: history)) row middle ∧
      Amended (History.tables (first :: history)) (History.tables (second :: first :: history)) { row with policy := middle }
        policy) ∧
    (∀ both joined, both.Patches id joined →
      (∀ name, Json.lookup? joined name = (Json.lookup? later name).or (Json.lookup? earlier name)) →
      Shown both history ∧ History.tables (both :: history) = History.tables (second :: first :: history)) ∧
    (earlier.Apart later → ∀ sooner last, sooner.Patches id later → last.Patches id earlier →
      Shown last (sooner :: history) ∧
      History.tables (last :: sooner :: history) = History.tables (second :: first :: history) ∧
      ((∀ row, (History.tables history).assignment? id = some row → ¬row.policy.Overruns) → Shown sooner history)) := by
  obtain ⟨before, after, row, middle, policy, read, readToo, found, amends, amendsToo, amended, amendedToo, within⟩ :=
    shown.twice sends sendsToo shownToo
  have kept := (sound history).assignment found
  have reached := amended.trans amendedToo
  have ended := sound (second :: first :: history)
  refine ⟨?_, fun both joined sendsBoth joins => ?_, fun apart sooner last sendsSooner sendsLast => ?_⟩
  · exact ⟨row, middle, policy, found, amends.columns read kept, amendsToo.columns readToo (amends.whole kept), amended,
      amendedToo⟩
  · have readBoth := PolicyChange.read_joined joins read readToo
    obtain ⟨amendedBoth, told⟩ := History.amended sendsBoth readBoth found (amends.merge amendsToo)
    exact ⟨told.mpr within, amendedBoth.unique reached (sound (both :: history)) ended⟩
  · have fits := (Bool.and_eq_true_iff.mp ((fitting history).assignment found)).2
    obtain ⟨between, amendsSooner, amendsLast⟩ := amends.swap amendsToo fits read readToo apart
    obtain rfl := Table.find?_key found
    obtain ⟨amendedSooner, told⟩ := History.amended sendsSooner readToo found amendsSooner
    obtain ⟨amendedLast, toldLast⟩ := History.amended sendsLast read amendedSooner.stored amendsLast
    have same := (amendedSooner.trans amendedLast).unique reached (sound (last :: sooner :: history)) ended
    refine ⟨toldLast.mpr within, same, fun graced => told.mpr ?_⟩
    exact amendsSooner.within_between amendsLast kept read readToo apart (graced row found) within

def dueMembers : Members := [("due_at", .str "2024-02-01T00:00:00+01:00"), ("applied_penalty", .bool false)]

def capMembers : Members := [("max_percentage_penalty", .int 80)]

def policySent (members : Members) : Event := .plain 63845200000000000 .patch ["assignments", "1", "late-policy"] members

theorem changes_compose_dueAndCap :
    (∃ row, (History.tables (policySent (dueMembers ++ capMembers) :: lateFinish)).assignment? 1 = some row ∧
      row.policy.cap = 80 ∧ row.policy.applied = false ∧ row.policy.daily = 5) ∧
    History.tables (policySent (dueMembers ++ capMembers) :: lateFinish) =
      History.tables (policySent capMembers :: policySent dueMembers :: lateFinish) ∧
    History.tables (policySent dueMembers :: policySent capMembers :: lateFinish) =
      History.tables (policySent capMembers :: policySent dueMembers :: lateFinish) := by
  have sends (members : Members) : (policySent members).Patches 1 members := ⟨rfl, ⟨"1", rfl, by decide⟩, rfl, rfl⟩
  have shown : Shown (policySent dueMembers) lateFinish := by decide +kernel
  have shownToo : Shown (policySent capMembers) (policySent dueMembers :: lateFinish) := by decide +kernel
  obtain ⟨_, joins, swaps⟩ := changes_compose (sends dueMembers) (sends capMembers) shown shownToo
  have apart : dueMembers.Apart capMembers := by
    have each : ∀ name ∈ PolicyForm.names, (Json.lookup? dueMembers name).isNone = true ∨
        (Json.lookup? capMembers name).isNone = true := by decide
    simp only [Option.isNone_iff_eq_none] at each
    exact each
  refine ⟨?_, (joins _ _ (sends _) (Json.lookup?_append dueMembers capMembers)).2, (swaps apart _ _ (sends _) (sends _)).2.1⟩
  have facts : ((History.tables (policySent (dueMembers ++ capMembers) :: lateFinish)).assignment? 1).any (fun row =>
      row.policy.cap = 80 ∧ row.policy.applied = false ∧ row.policy.daily = 5) = true := by decide +kernel
  obtain ⟨row, found, holds⟩ := (Option.any_eq_true _ _).mp facts
  exact ⟨row, found, of_decide_eq_true holds⟩

end History
end Overdue

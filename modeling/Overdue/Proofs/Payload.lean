import Overdue.Proofs.Failure
import Overdue.Request

/-! What an accepted payload says. A field holds what was sent of it, as its reader takes it, or its default; a change of a
policy holds just the fields that were sent. -/
namespace Overdue

variable {α β : Type} {members : Members} {name : String} {json : Json}

namespace Checked

theorem map_eq_accepted {f : α → β} {checked : Checked α} {value : β} :
    f <$> checked = .accepted value ↔ ∃ filled, checked = .accepted filled ∧ f filled = value := by
  change checked.map f = .accepted value ↔ _
  cases checked <;> simp [map]

theorem seq_eq_accepted {f : Checked (α → β)} {checked : Checked α} {value : β} :
    f <*> checked = .accepted value ↔ ∃ g filled, f = .accepted g ∧ checked = .accepted filled ∧ g filled = value := by
  change f.seq checked = .accepted value ↔ _
  cases f <;> cases checked <;> simp [seq]

theorem under_eq_accepted {checked : Checked α} {value : α} :
    checked.under name = .accepted value ↔ checked = .accepted value := by
  cases checked <;> simp [under]

end Checked

namespace Json

theorem lookup?_append (earlier later : List (String × Json)) (name : String) :
    lookup? (earlier ++ later) name = (lookup? later name).or (lookup? earlier name) := by
  unfold lookup?
  rw [List.reverse_append, List.find?_append, Option.map_or]

end Json

namespace Field

variable {reader : Reader α} {absent : Except ProblemType α} {value : α}

theorem read_eq_accepted : read members name reader absent = .accepted value ↔
    (match Json.lookup? members name with
    | none => absent
    | some json => reader json) = .ok value := by
  unfold read
  cases Json.lookup? members name with
  | none => cases absent <;> simp
  | some json => cases taken : reader json <;> simp [taken]

theorem read_refused {type : ProblemType} (sent : Json.lookup? members name = some json) (refused : reader json = .error type)
    (absent : Except ProblemType α) (value : α) : read members name reader absent ≠ .accepted value := by
  rw [Ne, read_eq_accepted, sent]
  simp [refused]

/-- What the default and the reader keep to, an accepted field keeps to. -/
theorem read_holds {P : α → Prop} (default : ∀ value, absent = .ok value → P value)
    (reads : ∀ json value, reader json = .ok value → P value) (accepted : read members name reader absent = .accepted value) :
    P value := by
  rw [read_eq_accepted] at accepted
  split at accepted
  · exact default value accepted
  next json _ => exact reads json value accepted

theorem percentage_bounds {n : Int} (reads : percentage json = .ok n) : 0 ≤ n ∧ n ≤ 100 := by
  unfold percentage at reads
  cases whole : integer json with
  | error type =>
    rw [whole] at reads
    cases reads
  | ok m =>
    rw [whole] at reads
    simp only [bind, Except.bind] at reads
    split at reads
    next => cases reads
    next =>
      split at reads
      next => cases reads
      next =>
        cases reads
        omega

theorem read_percentage_bounds {default n : Int} (accepted : read members name percentage (.ok default) = .accepted n)
    (bounds : 0 ≤ default ∧ default ≤ 100) : 0 ≤ n ∧ n ≤ 100 := by
  refine read_holds (P := fun n => 0 ≤ n ∧ n ≤ 100) ?_ (fun _ _ => percentage_bounds) accepted
  intro value same
  exact Except.ok.inj same ▸ bounds

theorem positive_pos {d : Double} (reads : positive json = .ok d) : Double.zero.lt d = true := by
  unfold positive at reads
  cases taken : number json with
  | error type =>
    rw [taken] at reads
    cases reads
  | ok value =>
    rw [taken] at reads
    simp only [bind, Except.bind] at reads
    split at reads
    next pos => exact Except.ok.inj reads ▸ pos
    next => cases reads

theorem nullable_eq_some (reads : nullable reader json = .ok (some value)) : reader json = .ok value := by
  unfold nullable at reads
  split at reads
  next => cases reads
  next =>
    cases taken : reader json with
    | error type =>
      rw [taken] at reads
      cases reads
    | ok found =>
      rw [taken] at reads
      cases reads
      rfl

end Field

namespace PolicyChange

variable {reader : Field.Reader α} {change : PolicyChange}

theorem sent_eq_accepted {value : Option (Option α)} : sent members name reader = .accepted value ↔
    match Json.lookup? members name with
    | none => value = none
    | some json => ∃ filled, Field.nullable reader json = .ok filled ∧ value = some filled := by
  unfold sent
  rw [Field.read_eq_accepted]
  cases Json.lookup? members name with
  | none => simp [eq_comm]
  | some json => cases taken : Field.nullable reader json <;> simp [Except.map, taken, eq_comm]

theorem map_join_of_ne {value : Option (Option α)} (sent : value ≠ some none) : value = value.join.map some := by
  rcases value with _ | _ | value
  · rfl
  · exact absurd rfl sent
  · rfl

theorem join_map_some (value : Option α) : (value.map some).join = value := by
  cases value <;> rfl

theorem nullName?_eq_none {fields : List (String × Bool)} : nullName? fields = none ↔ ∀ field ∈ fields, field.2 = false := by
  simp [nullName?, List.find?_eq_none]

/-- The fields are good together if none but the due instant is null. -/
theorem ofSent_eq_accepted {due : Option (Option Timestamp)} {applied : Option (Option Bool)}
    {daily cap : Option (Option Int)} {prevent : Option (Option Bool)} :
    ofSent due applied daily cap prevent = .accepted change ↔ due = change.dueAt ∧ applied = change.applied.map some ∧
      daily = change.daily.map some ∧ cap = change.cap.map some ∧ prevent = change.preventResubmission.map some := by
  unfold ofSent
  dsimp only
  constructor
  · intro accepted
    split at accepted
    next => cases accepted
    next null =>
      cases accepted
      simp only [nullName?_eq_none, List.forall_mem_cons, decide_eq_false_iff_not] at null
      obtain ⟨applies, charges, caps, prevents, _⟩ := null
      exact ⟨rfl, map_join_of_ne applies, map_join_of_ne charges, map_join_of_ne caps, map_join_of_ne prevents⟩
  · rintro ⟨rfl, rfl, rfl, rfl, rfl⟩
    have null : nullName? [(appliedName, decide (change.applied.map some = some none)),
        (dailyName, decide (change.daily.map some = some none)), (capName, decide (change.cap.map some = some none)),
        (preventName, decide (change.preventResubmission.map some = some none))] = none := by
      simp [nullName?_eq_none]
    rw [null]
    simp [join_map_some]

theorem read_eq_accepted : read members = .accepted change ↔
    sent members dueName Field.instant = .accepted change.dueAt ∧
    sent members appliedName Field.boolean = .accepted (change.applied.map some) ∧
    sent members dailyName Field.percentage = .accepted (change.daily.map some) ∧
    sent members capName Field.percentage = .accepted (change.cap.map some) ∧
    sent members preventName Field.boolean = .accepted (change.preventResubmission.map some) := by
  unfold read
  dsimp only
  constructor
  · intro accepted
    split at accepted
    next => cases accepted
    next due applied daily cap prevent fields =>
      simp only [Checked.seq_eq_accepted, Checked.map_eq_accepted] at fields
      obtain ⟨_, _, ⟨_, dues, rfl⟩, ⟨_, _, ⟨_, applies, rfl⟩, ⟨_, _, ⟨_, charges, rfl⟩, ⟨_, _, ⟨_, caps, rfl⟩, prevents, rfl⟩,
        rfl⟩, rfl⟩, same⟩ := fields
      cases same
      obtain ⟨rfl, rfl, rfl, rfl, rfl⟩ := ofSent_eq_accepted.mp accepted
      exact ⟨dues, applies, charges, caps, prevents⟩
  · rintro ⟨due, applied, daily, cap, prevent⟩
    rw [due, applied, daily, cap, prevent]
    exact ofSent_eq_accepted.mpr ⟨rfl, rfl, rfl, rfl, rfl⟩

/-- A field other than the due instant holds what its reader takes from what was sent. -/
theorem sent_map_some {value : Option α} (accepted : sent members name reader = .accepted (value.map some)) :
    match Json.lookup? members name with
    | none => value = none
    | some json => ∃ read, reader json = .ok read ∧ value = some read := by
  rw [sent_eq_accepted] at accepted
  cases sent : Json.lookup? members name with
  | none =>
    rw [sent] at accepted
    exact Option.map_eq_none_iff.mp accepted
  | some json =>
    rw [sent] at accepted
    obtain ⟨filled, reads, same⟩ := accepted
    cases value with
    | none => cases same
    | some read =>
      cases same
      exact ⟨read, Field.nullable_eq_some reads, rfl⟩

theorem sent_null {value : Option α} (null : Json.lookup? members name = some .null)
    (accepted : sent members name reader = .accepted (value.map some)) : ∃ read, reader .null = .ok read := by
  have taken := sent_map_some accepted
  rw [null] at taken
  obtain ⟨read, reads, _⟩ := taken
  exact ⟨read, reads⟩

theorem read_bounds (accepted : read members = .accepted change) :
    (∀ n, change.daily = some n → 0 ≤ n ∧ n ≤ 100) ∧ ∀ n, change.cap = some n → 0 ≤ n ∧ n ≤ 100 := by
  have percentage {name : String} {value : Option Int}
      (accepted : sent members name Field.percentage = .accepted (value.map some)) (n : Int) (present : value = some n) :
      0 ≤ n ∧ n ≤ 100 := by
    have taken := sent_map_some accepted
    split at taken
    next => cases present.symm.trans taken
    next =>
      obtain ⟨_, reads, same⟩ := taken
      cases present.symm.trans same
      exact Field.percentage_bounds reads
  obtain ⟨_, _, charges, caps, _⟩ := read_eq_accepted.mp accepted
  exact ⟨percentage charges, percentage caps⟩

theorem sent_joined {earlier later joined : Members} {before after : Option (Option α)}
    (joins : Json.lookup? joined name = (Json.lookup? later name).or (Json.lookup? earlier name))
    (first : sent earlier name reader = .accepted before) (second : sent later name reader = .accepted after) :
    sent joined name reader = .accepted (after.or before) := by
  rw [sent_eq_accepted] at first second ⊢
  rw [joins]
  cases sentLater : Json.lookup? later name with
  | none =>
    rw [sentLater] at second
    rw [second]
    exact first
  | some json =>
    rw [sentLater] at second
    obtain ⟨filled, reads, rfl⟩ := second
    exact ⟨filled, reads, rfl⟩

theorem read_joined {earlier later joined : Members} {first second : PolicyChange}
    (joins : ∀ name, Json.lookup? joined name = (Json.lookup? later name).or (Json.lookup? earlier name))
    (accepted : read earlier = .accepted first) (acceptedToo : read later = .accepted second) :
    read joined = .accepted (first.merge second) := by
  obtain ⟨dues, applies, charges, caps, prevents⟩ := read_eq_accepted.mp accepted
  obtain ⟨duesToo, appliesToo, chargesToo, capsToo, preventsToo⟩ := read_eq_accepted.mp acceptedToo
  rw [read_eq_accepted]
  simp only [merge, Option.map_or]
  exact ⟨sent_joined (joins _) dues duesToo, sent_joined (joins _) applies appliesToo,
    sent_joined (joins _) charges chargesToo, sent_joined (joins _) caps capsToo, sent_joined (joins _) prevents preventsToo⟩

end PolicyChange

/-- The columns of a policy other than the due instant. -/
def termNames : List String := [appliedName, dailyName, capName, preventName]

theorem PolicyForm.read_null (named : name ∈ termNames) (null : Json.lookup? members name = some .null) (form : PolicyForm) :
    read members ≠ .accepted form := by
  intro accepted
  simp only [read, Checked.seq_eq_accepted, Checked.map_eq_accepted] at accepted
  obtain ⟨_, prevent, ⟨_, cap, ⟨_, daily, ⟨_, applied, _, applies, _⟩, charges, _⟩, caps, _⟩, prevents, _⟩ := accepted
  simp only [termNames, List.mem_cons, List.not_mem_nil, or_false] at named
  rcases named with rfl | rfl | rfl | rfl
  · exact Field.read_refused null rfl _ applied applies
  · exact Field.read_refused null rfl _ daily charges
  · exact Field.read_refused null rfl _ cap caps
  · exact Field.read_refused null rfl _ prevent prevents

theorem PolicyChange.read_null (named : name ∈ termNames) (null : Json.lookup? members name = some .null)
    (change : PolicyChange) : read members ≠ .accepted change := by
  intro accepted
  obtain ⟨_, applies, charges, caps, prevents⟩ := read_eq_accepted.mp accepted
  simp only [termNames, List.mem_cons, List.not_mem_nil, or_false] at named
  rcases named with rfl | rfl | rfl | rfl
  · obtain ⟨_, reads⟩ := sent_null null applies
    cases reads
  · obtain ⟨_, reads⟩ := sent_null null charges
    cases reads
  · obtain ⟨_, reads⟩ := sent_null null caps
    cases reads
  · obtain ⟨_, reads⟩ := sent_null null prevents
    cases reads

namespace AssignmentForm

variable {form : AssignmentForm}

theorem fields_bounds (accepted : fields members = .accepted form) :
    (0 ≤ form.policy.daily ∧ form.policy.daily ≤ 100) ∧ (0 ≤ form.policy.cap ∧ form.policy.cap ≤ 100) ∧
      Double.zero.lt form.maxScore = true := by
  simp only [fields, PolicyForm.read, Checked.seq_eq_accepted, Checked.map_eq_accepted] at accepted
  obtain ⟨_, _, ⟨_, _, ⟨_, _, ⟨_, _, ⟨_, _, ⟨_, policy, rfl⟩, _, rfl⟩, _, rfl⟩, positive, rfl⟩, _, rfl⟩, _, rfl⟩ := accepted
  obtain ⟨_, _, ⟨_, _, ⟨_, _, ⟨_, _, ⟨_, _, rfl⟩, _, rfl⟩, charges, rfl⟩, caps, rfl⟩, _, rfl⟩ := policy
  refine ⟨Field.read_percentage_bounds charges (by decide), Field.read_percentage_bounds caps (by decide), ?_⟩
  refine Field.read_holds (P := fun d => Double.zero.lt d = true) ?_ (fun _ _ => Field.positive_pos) positive
  intro value same
  rw [← Except.ok.inj same]
  decide +kernel

theorem read_null (named : name ∈ termNames) (null : Json.lookup? members name = some .null) :
    ∃ problems, read members = .ok (.rejected problems) := by
  unfold read
  cases filled : fields members with
  | rejected problems => exact ⟨problems, rfl⟩
  | accepted form =>
    simp only [fields, Checked.seq_eq_accepted, Checked.map_eq_accepted] at filled
    obtain ⟨_, _, ⟨_, _, ⟨_, _, ⟨_, _, ⟨_, _, ⟨policy, accepted, _⟩, _⟩, _⟩, _⟩, _⟩, _⟩ := filled
    exact absurd accepted (PolicyForm.read_null named null policy)

theorem checkWindow_same {checked : AssignmentForm} (accepted : form.checkWindow = .ok (.accepted checked)) :
    checked = form := by
  unfold checkWindow at accepted
  split at accepted
  next => cases accepted; rfl
  next =>
    split at accepted
    next => cases accepted; rfl
    next =>
      obtain ⟨instant, _, accepted⟩ := Failure.bind_eq_ok.mp accepted
      obtain ⟨error, _, accepted⟩ := Failure.bind_eq_ok.mp accepted
      cases error with
      | none => cases accepted; rfl
      | some error => cases accepted

theorem read_eq_accepted : read members = .ok (.accepted form) ↔
    fields members = .accepted form ∧ form.checkWindow = .ok (.accepted form) := by
  unfold read
  cases filled : fields members with
  | rejected problems => simp
  | accepted checked =>
    simp only [Checked.accepted.injEq]
    constructor
    · intro accepted
      obtain rfl := checkWindow_same accepted
      exact ⟨rfl, accepted⟩
    · rintro ⟨rfl, accepted⟩
      exact accepted

end AssignmentForm

namespace Body

variable {body : Body}

theorem members_eq_accepted : body.members = .accepted members ↔ body = .value (.obj members) := by
  unfold Body.members
  split <;> simp_all

theorem fill_eq_accepted {read : Members → Checked α} {value : α} :
    body.fill read = .accepted value ↔ ∃ members, body = .value (.obj members) ∧ read members = .accepted value := by
  simp only [← members_eq_accepted]
  unfold fill
  cases body.members with
  | rejected problems => simp
  | accepted members => cases taken : read members <;> simp [Checked.under, taken]

theorem assignment_eq_accepted {form : AssignmentForm} : body.assignment = .ok (.accepted form) ↔
    ∃ members, body = .value (.obj members) ∧ AssignmentForm.read members = .ok (.accepted form) := by
  simp only [← members_eq_accepted]
  unfold assignment
  cases body.members with
  | rejected problems => simp
  | accepted members =>
    rw [Failure.map_eq_ok]
    simp [Checked.under_eq_accepted]

end Body

namespace Call

theorem ofChecked_accepted {checked : Checked Call} {call : Call} : ofChecked checked = .ok call ↔ checked = .accepted call := by
  cases checked <;> simp [ofChecked]

theorem ofChecked_eq_ok {f : α → β → Call} {number : Checked α} {form : Checked β} {call : Call}
    (told : ofChecked (f <$> number <*> form) = .ok call) :
    ∃ n filled, number = .accepted n ∧ form = .accepted filled ∧ call = f n filled := by
  rw [ofChecked_accepted, Checked.seq_eq_accepted] at told
  obtain ⟨_, filled, fills, filledToo, rfl⟩ := told
  obtain ⟨n, numbered, rfl⟩ := Checked.map_eq_accepted.mp fills
  exact ⟨n, filled, numbered, filledToo, rfl⟩

theorem ofChecked_map_eq_ok {f : α → Call} {checked : Checked α} {call : Call} (told : ofChecked (f <$> checked) = .ok call) :
    ∃ value, checked = .accepted value ∧ f value = call :=
  Checked.map_eq_accepted.mp (ofChecked_accepted.mp told)

theorem ofChecked_refused {checked : Checked Call} (refused : ∀ call, checked ≠ .accepted call) :
    ∃ problems, ofChecked checked = .error (.invalid problems) := by
  cases checked with
  | accepted call => exact absurd rfl (refused call)
  | rejected problems => exact ⟨_, rfl⟩

/-- The form of a call is read from a body. -/
def FilledFrom (body : Body) : Call → Prop
  | .create form => body.assignment = .ok (.accepted form)
  | .changePolicy _ change => body.fill PolicyChange.read = .accepted change
  | .start _ form => body.fill StartForm.read = .accepted form
  | .finish _ form => body.fill FinishForm.read = .accepted form
  | .grade _ form => body.fill GradeForm.read = .accepted form
  | _ => True

theorem filledFrom_of_number {f : Int → Call} {number : Checked Int} {body : Body} {call : Call}
    (told : ofChecked (f <$> number) = .ok call) (all : ∀ n, (f n).FilledFrom body) : call.FilledFrom body := by
  obtain ⟨n, _, rfl⟩ := ofChecked_map_eq_ok told
  exact all n

theorem filledFrom_of_form {f : Int → α → Call} {number : Checked Int} {form : Checked α} {body : Body} {call : Call}
    (told : ofChecked (f <$> number <*> form) = .ok call)
    (all : ∀ n filled, form = .accepted filled → (f n filled).FilledFrom body) : call.FilledFrom body := by
  obtain ⟨n, filled, _, accepted, rfl⟩ := ofChecked_eq_ok told
  exact all n filled accepted

theorem ofPlace_filled {method : Method} {place : Place} {body : Body} {call : Call}
    (asked : ofPlace method place body = .ok (.ok call)) : call.FilledFrom body := by
  unfold ofPlace at asked
  split at asked
  case h_1 =>
    cases asked
    trivial
  case h_2 =>
    obtain ⟨form, filled, told⟩ := Failure.map_eq_ok.mp asked
    obtain ⟨form, rfl, rfl⟩ := ofChecked_map_eq_ok told
    exact filled
  case h_3 | h_5 | h_7 | h_10 | h_11 => exact filledFrom_of_number (Except.ok.inj asked) fun _ => trivial
  case h_4 | h_6 | h_8 | h_9 => exact filledFrom_of_form (Except.ok.inj asked) fun _ _ filled => filled
  case h_12 => cases asked

end Call

theorem Request.call_filled {request : Request} {call : Call} (asked : request.call = .ok (.ok call)) :
    call.FilledFrom request.body := by
  unfold Request.call at asked
  split at asked
  next => cases asked
  next => exact Call.ofPlace_filled asked

end Overdue

import Overdue.Proofs.Scores

/-! A grading and a regrade, one after the other. A grading charges by the late record that there is and a regrade by the
policy that there is, and yet both orders end alike: what the earlier of the two has charged is charged again by the later. -/
namespace Overdue

open Failure

structure Outcome where
  record : Option LateRecord
  rawScore : Option Double
  penalty : Int
  score : Option Double
deriving DecidableEq

def Tables.outcome (tables : Tables) (id : Int) : Option Outcome :=
  (tables.submission? id).map fun row => ⟨tables.late? id, row.rawScore, row.penalty, row.score⟩

variable {tables middle after : Tables} {context : Context} {calendar : Calendar} {form : GradeForm} {id : Int}
  {row : Submission} {assignment : Assignment} {finished : Timestamp} {fault : Option Nat}

theorem Tables.outcome_found (found : tables.submission? id = some row) :
    tables.outcome id = some ⟨tables.late? id, row.rawScore, row.penalty, row.score⟩ := by
  rw [outcome, found]
  rfl

theorem Tables.assignment?_kept {kept : Submission} (assignments : after.assignments = tables.assignments)
    (same : kept.assignment = row.assignment) : after.assignment? kept.assignment = tables.assignment? row.assignment := by
  rw [same, assignment?, assignments]
  rfl

/-- The outcome of a score that was sent: the late record by the policy that there is, and the score after its penalty. -/
inductive Concludes (calendar : Calendar) (form : GradeForm) (tables : Tables) (id : Int) : Outcome → Prop
  | intro {row : Submission} {finished : Timestamp} {assignment : Assignment} {record : Option LateRecord} {penalty : Int}
    {score : Double} (found : tables.submission? id = some row) (finishedAt : row.finishedAt = some finished)
    (placed : tables.assignment? row.assignment = some assignment)
    (revises : Evaluation.revised id finished assignment.policy (tables.late? id) = .ok record)
    (charges : Evaluation.charged calendar record = .ok penalty) (adjusts : Score.adjust form.score penalty = .ok score) :
    Concludes calendar form tables id ⟨record, Cell.number form.score, penalty, some score⟩

theorem Concludes.unique {outcome other : Outcome} (concludes : Concludes calendar form tables id outcome)
    (again : Concludes calendar form tables id other) : outcome = other := by
  obtain ⟨found, finishedAt, placed, revises, charges, adjusts⟩ := concludes
  obtain ⟨foundToo, finishedToo, placedToo, revisesToo, chargesToo, adjustsToo⟩ := again
  cases found.symm.trans foundToo
  cases finishedAt.symm.trans finishedToo
  cases placed.symm.trans placedToo
  cases revises.symm.trans revisesToo
  cases charges.symm.trans chargesToo
  cases adjusts.symm.trans adjustsToo
  rfl

/-- A graded row is adjusted from the score that was sent, also where the store has null for it. -/
theorem Evaluation.adjusted_sent {sent score : Double} {before penalty : Int} (raw : row.rawScore = Cell.number sent)
    (scored : row.score = some score) (adjusts : Score.adjust sent before = .ok score) (low : 0 ≤ penalty)
    (high : penalty ≤ 100) : ∃ again, Score.adjust sent penalty = .ok again ∧ adjusted row penalty = .ok (some again) := by
  obtain ⟨again, adjustsToo⟩ := Score.adjust_returns sent low high
  refine ⟨again, adjustsToo, ?_⟩
  unfold adjusted
  cases number : Cell.number sent with
  | none =>
    -- the row keeps its score then, and every penalty adjusts a NaN to the same
    have null := Cell.number_eq_none.mp number
    rw [null] at adjusts adjustsToo
    rw [raw, number, scored, Score.adjust_nan adjusts, Score.adjust_nan adjustsToo]
  | some kept =>
    rw [raw, number]
    exact map_eq_ok.mpr ⟨again, (Score.adjust_number number penalty).trans adjustsToo, rfl⟩

/-- A row that is not rescored since it was adjusted is adjusted to the score that it has. -/
theorem Coherent.adjusted_same (coherent : Coherent row) : Evaluation.adjusted row row.penalty = .ok row.score := by
  unfold Evaluation.adjusted
  cases raw : row.rawScore with
  | none => rfl
  | some value =>
    obtain ⟨_, score, scored, adjusts⟩ := coherent.adjusted value raw
    rw [scored]
    exact map_eq_ok.mpr ⟨score, adjusts, rfl⟩

theorem Agrees.revises {policy : Policy} {record : Option LateRecord} (agrees : Agrees policy finished id record)
    (kept : finished.stored = finished) : Evaluation.revised id finished policy record = .ok record := by
  cases agrees with
  | onTime onTime => exact Evaluation.revised_onTime onTime id none
  | late late frozen =>
    rw [Evaluation.revised_late late (Timestamp.utc_of_stored kept) frozen]
    simp [LateRecord.stored, kept]

namespace Evaluation

/-- A regrade by the policy that judged last, on the calendar that has charged, settles what there is. -/
theorem settles_same (sound : Sound tables) (fitting : Fitting tables) (found : tables.submission? id = some row)
    (finishedAt : row.finishedAt = some finished) (placed : tables.assignment? row.assignment = some assignment)
    (coherent : Coherent row) (agrees : Agrees assignment.policy finished id (tables.late? id))
    (charges : charge id calendar tables = .ok row.penalty) : Settles calendar tables id (tables.entry id) := by
  obtain rfl := Table.find?_key found
  rw [charge_eq] at charges
  have revises := agrees.revises (sound.stored_finish found finishedAt)
  have settles : settled calendar assignment.policy finished row (tables.late? row.id) = .ok (row, tables.late? row.id) :=
    settled_eq_ok.mpr ⟨row.penalty, row.score, revises, charges, coherent.adjusted_same, sound.submission found⟩
  have fitsPolicy := (Bool.and_eq_true_iff.mp (fitting.assignment placed)).2
  obtain ⟨late, decided, _⟩ := bind_eq_ok.mp revises
  have judgeable : Judgeable row.id finished assignment.policy :=
    ⟨(fitting.submission_numbers found).1, late, decided, fun _ => fitsPolicy⟩
  rw [Tables.entry, found]
  exact .intro found finishedAt placed judgeable settles (fitting.submission found)

/-- What is settled: the late record by the policy that there is, and the row with its price and nothing else that is new. -/
structure Renewed (calendar : Calendar) (tables after : Tables) (id : Int) (row : Submission) (finished : Timestamp)
    (assignment : Assignment) (kept : Submission) : Prop where
  found : tables.submission? id = some row
  finishedAt : row.finishedAt = some finished
  placed : tables.assignment? row.assignment = some assignment
  stored : after.submission? id = some kept
  assigned : kept.assignment = row.assignment
  finishKept : kept.finishedAt = row.finishedAt
  rawScore : kept.rawScore = row.rawScore
  revises : revised id finished assignment.policy (tables.late? id) = .ok (after.late? id)
  charges : charged calendar (after.late? id) = .ok kept.penalty
  scores : ∃ score, adjusted row kept.penalty = .ok score ∧ kept.score = score.bind Cell.number

theorem Settles.renewed (sound : Sound tables) (settles : Settles calendar tables id (after.entry id)) :
    ∃ row finished assignment kept, Renewed calendar tables after id row finished assignment kept := by
  generalize ended : after.entry id = entry at settles
  obtain @⟨row, finished, assignment, entry, found, finishedAt, placed, _, settles, _⟩ := settles
  obtain ⟨penalty, score, revises, charges, scores, same⟩ := settled_eq_ok.mp settles
  rw [Submission.stored_rescored (sound.submission found)] at same
  have stored : after.submission? id = some entry.1 := congrArg Prod.fst ended
  have late : after.late? id = entry.2 := congrArg Prod.snd ended
  obtain rfl := Table.find?_key found
  rw [← same] at stored
  rw [← late] at revises charges
  exact ⟨row, finished, assignment, _, found, finishedAt, placed, stored, rfl, rfl, rfl, revises, charges, score, scores, rfl⟩

end Evaluation

namespace Service

theorem answer_grade_returns_iff (held : Held tables) (fitting : Fitting tables) (found : tables.submission? id = some row)
    (finished : row.isFinished = true) (placed : tables.assignment? row.assignment = some assignment) (context : Context)
    (form : GradeForm) : (∃ view, (answer context none (.grade id form) tables).1 = .ok (.submission view)) ↔
      isScore form.score assignment.maxScore = true ∧ ∃ penalty, Evaluation.charge id context.calendar tables = .ok penalty := by
  obtain ⟨attempts, result, after, runs, graded⟩ := perform_yields context (.grade id form) tables
  have ended : answer context none (.grade id form) tables = (result, after) := answer_eq runs none
  rw [ended]
  cases graded with
  | wide wide =>
    obtain ⟨fits, fitsToo, _⟩ := fitting.submission_numbers found
    rcases wide with wide | ⟨_, foundToo, wide⟩
    · cases fits.symm.trans wide
    · cases found.symm.trans foundToo
      cases fitsToo.symm.trans wide
  | missing absent => cases found.symm.trans absent
  | unfinished foundToo unfinished =>
    cases found.symm.trans foundToo
    cases finished.symm.trans unfinished
  | unplaced foundToo absent =>
    cases found.symm.trans foundToo
    cases placed.symm.trans absent
  | outside foundToo placedToo outside =>
    cases found.symm.trans foundToo
    cases placed.symm.trans placedToo
    exact iff_of_false (by simp) fun allowed => by cases outside.symm.trans allowed.1
  | uncharged failed =>
    refine iff_of_false (by simp) ?_
    rintro ⟨_, _, charged⟩
    cases failed.symm.trans charged
  | unscored charged failed =>
    rw [Evaluation.charge_eq] at charged
    obtain ⟨low, high⟩ := Evaluation.charged_bounds charged
    obtain ⟨_, scored⟩ := Score.adjust_returns form.score low high
    cases failed.symm.trans scored
  | @unsaved _ assignment _ score _ foundToo charged refused =>
    cases found.symm.trans foundToo
    rw [Evaluation.charge_eq] at charged
    obtain ⟨low, high⟩ := Evaluation.charged_bounds charged
    obtain ⟨_, saved⟩ : ∃ after, tables.putSubmission (marked context form assignment.policy _ score row) = .ok after :=
      held.puts found (Evaluation.fits_priced (fitting.submission found) low high) rfl
    cases saved.symm.trans refused
  | saved foundToo _ placedToo inside charged =>
    cases found.symm.trans foundToo
    cases placed.symm.trans placedToo
    exact iff_of_true ⟨_, rfl⟩ ⟨inside, _, charged⟩

/-- What a grading that is answered with the submission leaves of it. -/
structure Leaves (calendar : Calendar) (form : GradeForm) (tables after : Tables) (id : Int) (row kept : Submission)
    (score : Double) : Prop where
  found : tables.submission? id = some row
  stored : after.submission? id = some kept
  assignments : after.assignments = tables.assignments
  late : after.late? id = tables.late? id
  assignment : kept.assignment = row.assignment
  finishedAt : kept.finishedAt = row.finishedAt
  rawScore : kept.rawScore = Cell.number form.score
  scored : kept.score = some score
  charged : Evaluation.charge id calendar tables = .ok kept.penalty
  adjusts : Score.adjust form.score kept.penalty = .ok score

theorem grade_leaves {view : SubmissionView} (sound : Sound tables)
    (replied : (answer context fault (.grade id form) tables).1 = .ok (.submission view)) :
    ∃ row finished assignment kept score,
      Leaves context.calendar form tables (answer context fault (.grade id form) tables).2 id row kept score ∧
      row.finishedAt = some finished ∧ tables.assignment? row.assignment = some assignment ∧
      isScore form.score assignment.maxScore = true := by
  rcases answer_grade context fault id form tables with
    ⟨unanswered, _⟩ | ⟨row, assignment, penalty, score, after, found, finished, placed, inside, charged, scored, saved, same⟩
  · exact absurd replied (unanswered view)
  obtain rfl := Table.find?_key found
  obtain ⟨finished, finishedAt⟩ := Option.isSome_iff_exists.mp finished
  obtain ⟨assignments, lateRecords⟩ := Tables.putSubmission_keeps saved
  rw [same]
  refine ⟨row, finished, assignment, (marked context form assignment.policy penalty score row).stored, score, ?_, finishedAt,
    placed, inside⟩
  exact {
    found
    stored := (Tables.putSubmission_found saved).2
    assignments
    late := by rw [Tables.late?, lateRecords]; rfl
    assignment := rfl
    finishedAt := show row.stored.finishedAt = row.finishedAt from congrArg Submission.finishedAt (sound.submission found)
    rawScore := rfl
    scored := Score.adjust_kept scored
    charged
    adjusts := scored }

theorem regrade_leaves {view : SubmissionView}
    (replied : (answer context fault (.regrade id) tables).1 = .ok (.submission view)) :
    Evaluation.Settles context.calendar tables id ((answer context fault (.regrade id) tables).2.entry id) ∧
      (answer context fault (.regrade id) tables).2.assignments = tables.assignments ∧
      ∀ other ≠ id, (answer context fault (.regrade id) tables).2.entry other = tables.entry other := by
  obtain ⟨attempts, result, after, runs, refreshed⟩ := perform_yields context (.regrade id) tables
  rcases answer_cases runs fault with same | ⟨left, _, same⟩
  · rw [same] at replied ⊢
    obtain rfl : result = .ok (.submission view) := replied
    cases refreshed with
    | answered found finished regraded stored =>
      obtain ⟨settles, assignments, _, others⟩ := regraded.settles
      exact ⟨settles, assignments, others⟩
  · rw [same] at replied
    cases replied

/-- A regrade after a grading settles the row with the score that was sent. -/
theorem Leaves.concludes {kept last : Submission} {score : Double} (leaves : Leaves calendar form tables middle id row kept score)
    (renewed : Evaluation.Renewed calendar middle after id kept finished assignment last) :
    ∃ outcome, Concludes calendar form tables id outcome ∧ after.outcome id = some outcome := by
  obtain ⟨low, high⟩ := Evaluation.charged_bounds renewed.charges
  obtain ⟨again, adjusts, adjusted⟩ := Evaluation.adjusted_sent leaves.rawScore leaves.scored leaves.adjusts low high
  obtain ⟨_, scores, stored⟩ := renewed.scores
  cases scores.symm.trans adjusted
  have revises := renewed.revises
  rw [leaves.late] at revises
  have placed := (Tables.assignment?_kept leaves.assignments leaves.assignment).symm.trans renewed.placed
  refine ⟨_, .intro leaves.found (leaves.finishedAt.symm.trans renewed.finishedAt) placed revises renewed.charges adjusts, ?_⟩
  rw [Tables.outcome_found renewed.stored, renewed.rawScore, leaves.rawScore, stored, Option.bind_some, Score.adjust_kept adjusts]

/-- A grading after a regrade charges what the regrade has charged. -/
theorem Leaves.concluded {kept last : Submission} {score : Double}
    (renewed : Evaluation.Renewed calendar tables middle id row finished assignment kept)
    (leaves : Leaves calendar form middle after id kept last score) :
    ∃ outcome, Concludes calendar form tables id outcome ∧ after.outcome id = some outcome := by
  have charged := leaves.charged
  rw [Evaluation.charge_eq] at charged
  refine ⟨_, .intro renewed.found renewed.finishedAt renewed.placed renewed.revises charged leaves.adjusts, ?_⟩
  rw [Tables.outcome_found leaves.stored, leaves.late, leaves.rawScore, leaves.scored]

end Service

namespace History

def Granted (event : Event) (earlier : List Event) : Prop := ∃ view, answer event earlier = .ok (.submission view)

instance decidableGranted (event : Event) (earlier : List Event) : Decidable (Granted event earlier) :=
  match replied : answer event earlier with
  | .ok (.submission view) => .isTrue ⟨view, replied⟩
  | .error _ | .ok .healthy | .ok (.created _) | .ok (.assignment _) | .ok (.regraded _ _) | .ok (.started _)
  | .ok (.submissions _) | .ok (.penalty _ _ _) | .ok (.refused _) =>
    .isFalse fun ⟨_, other⟩ => by cases replied.symm.trans other

variable {grade regrade first second : Event} {history : List Event}

theorem Granted.leaves (asks : grade.Asks calendar (.grade id form)) (granted : Granted grade history) :
    ∃ row finished assignment kept score,
      Service.Leaves calendar form (History.tables history) (History.tables (grade :: history)) id row kept score ∧
      row.finishedAt = some finished ∧ (History.tables history).assignment? row.assignment = some assignment ∧
      Service.isScore form.score assignment.maxScore = true := by
  obtain ⟨view, replied⟩ := granted
  obtain ⟨same, reached⟩ := answer_asked asks history
  rw [same] at replied
  rw [reached, ← asks.calendar]
  exact Service.grade_leaves (sound history) replied

theorem Granted.settles (asks : regrade.Asks calendar (.regrade id)) (granted : Granted regrade history) :
    Evaluation.Settles calendar (History.tables history) id ((History.tables (regrade :: history)).entry id) ∧
      (History.tables (regrade :: history)).assignments = (History.tables history).assignments ∧
      ∀ other ≠ id, (History.tables (regrade :: history)).entry other = (History.tables history).entry other := by
  obtain ⟨view, replied⟩ := granted
  obtain ⟨same, reached⟩ := answer_asked asks history
  rw [same] at replied
  rw [reached, ← asks.calendar]
  exact Service.regrade_leaves replied

theorem regrade_granted_iff (asks : regrade.Asks calendar (.regrade id))
    (found : (History.tables history).submission? id = some row) (finishedAt : row.finishedAt = some finished)
    (placed : (History.tables history).assignment? row.assignment = some assignment) :
    Granted regrade history ↔ assignment.policy.Judges calendar finished.reading := by
  have returns := Service.answer_regrade_returns_iff (held history) (sound history) (fitting history) found finishedAt placed
    regrade.context
  rw [asks.calendar] at returns
  rw [Granted, (answer_asked asks history).1]
  exact returns

theorem grade_granted_iff (asks : grade.Asks calendar (.grade id form))
    (found : (History.tables history).submission? id = some row) (finishedAt : row.finishedAt = some finished)
    (placed : (History.tables history).assignment? row.assignment = some assignment) :
    Granted grade history ↔ Service.isScore form.score assignment.maxScore = true ∧
      ∃ penalty, Evaluation.charge id calendar (History.tables history) = .ok penalty := by
  have returns := Service.answer_grade_returns_iff (held history) (fitting history) found (Option.isSome_of_mem finishedAt)
    placed grade.context form
  rw [asks.calendar] at returns
  rw [Granted, (answer_asked asks history).1]
  exact returns

theorem granted_sooner (grades : grade.Asks calendar (.grade id form)) (regrades : regrade.Asks calendar (.regrade id))
    (regradesFirst : first.Asks calendar (.regrade id)) (gradesSecond : second.Asks calendar (.grade id form))
    (graded : Granted grade history) (regraded : Granted regrade (grade :: history)) :
    Granted first history ∧ Granted second (first :: history) := by
  obtain ⟨row, finished, assignment, kept, score, leaves, finishedAt, placed, inside⟩ := graded.leaves grades
  have placedThen := (Tables.assignment?_kept leaves.assignments leaves.assignment).trans placed
  have judges := (regrade_granted_iff regrades leaves.stored (leaves.finishedAt.trans finishedAt) placedThen).mp regraded
  have sooner := (regrade_granted_iff regradesFirst leaves.found finishedAt placed).mpr judges
  obtain ⟨settles, assignments, _⟩ := sooner.settles regradesFirst
  obtain ⟨_, _, _, left, renewed⟩ := settles.renewed (sound history)
  cases leaves.found.symm.trans renewed.found
  have placedLeft := (Tables.assignment?_kept assignments renewed.assigned).trans placed
  have finishedLeft := renewed.finishKept.trans finishedAt
  have charged := (Evaluation.charge_eq id calendar _).trans renewed.charges
  exact ⟨sooner, (grade_granted_iff gradesSecond renewed.stored finishedLeft placedLeft).mpr ⟨inside, _, charged⟩⟩

/-- The other way round the grading comes to a charge because the row had been priced before. -/
theorem granted_later (clean : Clean history) (fixed : ∀ event ∈ history, event.context.calendar = calendar)
    (grades : grade.Asks calendar (.grade id form)) (regrades : regrade.Asks calendar (.regrade id))
    (regradesFirst : first.Asks calendar (.regrade id)) (gradesSecond : second.Asks calendar (.grade id form))
    (regraded : Granted first history) (graded : Granted second (first :: history)) :
    Granted grade history ∧ Granted regrade (grade :: history) := by
  obtain ⟨settles, assignments, _⟩ := regraded.settles regradesFirst
  obtain ⟨row, finished, assignment, left, renewed⟩ := settles.renewed (sound history)
  have found := renewed.found
  have finishedAt := renewed.finishedAt
  have placed := renewed.placed
  have judges := (regrade_granted_iff regradesFirst found finishedAt placed).mp regraded
  have placedLeft := (Tables.assignment?_kept assignments renewed.assigned).trans placed
  have finishedLeft := renewed.finishKept.trans finishedAt
  obtain ⟨inside, _⟩ := (grade_granted_iff gradesSecond renewed.stored finishedLeft placedLeft).mp graded
  have charged := priced clean fixed id row found
  have sooner := (grade_granted_iff grades found finishedAt placed).mpr ⟨inside, _, charged⟩
  obtain ⟨_, _, _, kept, _, leaves, _⟩ := sooner.leaves grades
  cases found.symm.trans leaves.found
  have placedThen := (Tables.assignment?_kept leaves.assignments leaves.assignment).trans placed
  exact ⟨sooner, (regrade_granted_iff regrades leaves.stored (leaves.finishedAt.trans finishedAt) placedThen).mpr judges⟩

theorem agrees_of_unchanged (clean : Clean history) (found : (History.tables history).submission? id = some row)
    (finishedAt : row.finishedAt = some finished) (unchanged : judgedBy history id = (History.tables history).policyOf id) :
    ∃ assignment, (History.tables history).assignment? row.assignment = some assignment ∧
      Agrees assignment.policy finished id ((History.tables history).late? id) := by
  obtain ⟨assignment, placed⟩ := (sound history).placed found
  have judged := Snapshot.of_clean clean id row found
  rw [finishedAt, unchanged, Tables.policyOf, found, Option.bind_some, placed] at judged
  obtain ⟨_, same, agrees⟩ := judged
  cases same
  exact ⟨assignment, placed, agrees⟩

theorem regrade_keeps (clean : Clean history) (regrades : regrade.Asks calendar (.regrade id))
    (found : (History.tables history).submission? id = some row) (finishedAt : row.finishedAt = some finished)
    (unchanged : judgedBy history id = (History.tables history).policyOf id) (granted : Granted regrade history) :
    (History.tables (regrade :: history)).late? id = (History.tables history).late? id ∧
      ∃ kept, (History.tables (regrade :: history)).submission? id = some kept ∧ kept.rawScore = row.rawScore := by
  have sound := sound history
  obtain ⟨assignment, placed, agrees⟩ := agrees_of_unchanged clean found finishedAt unchanged
  obtain ⟨_, _, _, kept, renewed⟩ := (granted.settles regrades).1.renewed sound
  cases found.symm.trans renewed.found
  cases finishedAt.symm.trans renewed.finishedAt
  cases placed.symm.trans renewed.placed
  have same := (agrees.revises (sound.stored_finish found finishedAt)).symm.trans renewed.revises
  exact ⟨(Except.ok.inj same).symm, kept, renewed.stored, renewed.rawScore⟩

theorem regrade_same (clean : Clean history) (fixed : ∀ event ∈ history, event.context.calendar = calendar)
    (regrades : regrade.Asks calendar (.regrade id)) (found : (History.tables history).submission? id = some row)
    (finishedAt : row.finishedAt = some finished) (unchanged : judgedBy history id = (History.tables history).policyOf id) :
    Granted regrade history ∧ History.tables (regrade :: history) = History.tables history := by
  have sound := sound history
  obtain ⟨assignment, placed, agrees⟩ := agrees_of_unchanged clean found finishedAt unchanged
  have settles := Evaluation.settles_same sound (fitting history) found finishedAt placed (coherent history id row found) agrees
    (priced clean fixed id row found)
  have judges := (Evaluation.settles_iff sound (fitting history) found finishedAt placed).mp ⟨_, settles⟩
  have granted := (regrade_granted_iff regrades found finishedAt placed).mpr judges
  obtain ⟨again, assignments, others⟩ := granted.settles regrades
  refine ⟨granted, (held (regrade :: history)).ext (held history) assignments fun other => ?_⟩
  by_cases own : other = id
  · rw [own]
    exact again.unique settles
  · exact others other own

/-- A regrade and then a grading are granted if a grading and then a regrade are, and what is decided on the submission is the
same after either: the late record by the policy that there is, the score that was sent, the penalty of that record and the
score after it. Where no request before had failed and the calendar was always the one of now, both orders are granted if
either is. A regrade by the policy that judged the submission last keeps the late record and the raw score, and on the calendar
of all before it is granted and changes nothing at all. -/
theorem grade_regrade_commute (grades : grade.Asks calendar (.grade id form)) (regrades : regrade.Asks calendar (.regrade id))
    (regradesFirst : first.Asks calendar (.regrade id)) (gradesSecond : second.Asks calendar (.grade id form)) :
    (∀ history, Granted grade history → Granted regrade (grade :: history) →
      Granted first history ∧ Granted second (first :: history) ∧
      ∃ outcome, Concludes calendar form (History.tables history) id outcome ∧
        (History.tables (regrade :: grade :: history)).outcome id = some outcome ∧
        (History.tables (second :: first :: history)).outcome id = some outcome) ∧
    (∀ history, Clean history → (∀ event ∈ history, event.context.calendar = calendar) →
      Granted first history → Granted second (first :: history) →
      Granted grade history ∧ Granted regrade (grade :: history)) ∧
    ∀ history row finished, Clean history → (History.tables history).submission? id = some row →
      row.finishedAt = some finished → judgedBy history id = (History.tables history).policyOf id →
      (Granted regrade history → (History.tables (regrade :: history)).late? id = (History.tables history).late? id ∧
        ∃ kept, (History.tables (regrade :: history)).submission? id = some kept ∧ kept.rawScore = row.rawScore) ∧
      ((∀ event ∈ history, event.context.calendar = calendar) →
        Granted regrade history ∧ History.tables (regrade :: history) = History.tables history) := by
  refine ⟨fun history graded regraded => ?_, fun history clean fixed => ?_, fun history row finished clean found finishedAt same =>
    ⟨regrade_keeps clean regrades found finishedAt same, fun fixed => regrade_same clean fixed regrades found finishedAt same⟩⟩
  · obtain ⟨sooner, later⟩ := granted_sooner grades regrades regradesFirst gradesSecond graded regraded
    obtain ⟨_, _, _, _, _, leaves, _⟩ := graded.leaves grades
    obtain ⟨_, _, _, _, _, leavesLast, _⟩ := later.leaves gradesSecond
    obtain ⟨_, _, _, _, renewed⟩ := (regraded.settles regrades).1.renewed (sound (grade :: history))
    obtain ⟨_, _, _, _, renewedFirst⟩ := (sooner.settles regradesFirst).1.renewed (sound history)
    cases leaves.stored.symm.trans renewed.found
    cases renewedFirst.stored.symm.trans leavesLast.found
    obtain ⟨outcome, concludes, ended⟩ := leaves.concludes renewed
    obtain ⟨other, concludesToo, endedToo⟩ := leavesLast.concluded renewedFirst
    obtain rfl := concludes.unique concludesToo
    exact ⟨sooner, later, outcome, concludes, ended, endedToo⟩
  · exact granted_later clean fixed grades regrades regradesFirst gradesSecond

def cappedAt80 : Event :=
  .plain 63845200000000000 .patch ["assignments", "1", "late-policy"] [("max_percentage_penalty", .int 80)]

def scored80 : Event := .plain 63845300000000000 .patch ["submissions", "1", "grade"] [("score", .int 80)]

def regraded : Event := .plain 63845400000000000 .post ["submissions", "1", "regrade"] []

/-- The submission was judged by a cap of 50 percent, at which the regrade before the new cap leaves it. -/
theorem grade_regrade_commute_capped :
    (∃ outcome, outcome.penalty = 80 ∧
      (History.tables (regraded :: scored80 :: cappedAt80 :: lateFinish)).outcome 1 = some outcome ∧
      (History.tables (scored80 :: regraded :: cappedAt80 :: lateFinish)).outcome 1 = some outcome) ∧
    (History.tables lateFinish).standing 1 = some ⟨true, 50⟩ ∧
    History.tables (regraded :: lateFinish) = History.tables lateFinish := by
  have grades : scored80.Asks ⟨[], .utc⟩ (.grade 1 ⟨.ofInt 80, none⟩) := ⟨by decide +kernel, rfl, rfl⟩
  have regrades : regraded.Asks ⟨[], .utc⟩ (.regrade 1) := ⟨by decide +kernel, rfl, rfl⟩
  obtain ⟨orders, _, unchanged⟩ := grade_regrade_commute grades regrades regrades grades
  obtain ⟨_, _, outcome, _, ended, endedToo⟩ := orders (cappedAt80 :: lateFinish) (by decide +kernel) (by decide +kernel)
  have penalty : ((History.tables (regraded :: scored80 :: cappedAt80 :: lateFinish)).outcome 1).map Outcome.penalty = some 80 := by
    decide +kernel
  have finish : ((History.tables lateFinish).submission? 1).any Submission.isFinished = true := by decide +kernel
  obtain ⟨row, found, isFinished⟩ := (Option.any_eq_true _ _).mp finish
  obtain ⟨finished, finishedAt⟩ := Option.isSome_iff_exists.mp isFinished
  obtain ⟨_, settled⟩ := unchanged lateFinish row finished (by decide +kernel) found finishedAt (by decide +kernel)
  rw [ended] at penalty
  exact ⟨⟨outcome, Option.some.inj penalty, ended, endedToo⟩, by decide +kernel, (settled (by decide +kernel)).2⟩

end History
end Overdue

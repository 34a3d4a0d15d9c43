import Overdue.Proofs.GradeNote

/-! The scores of gradings. A grading is refused where the score is below zero or above the largest, so that a score that
is a number lies within, and NaN is let through; the store has null for it, where it has any other score as it was sent. -/
namespace Overdue

open Failure

theorem Representable.zero : Representable 0 := ⟨Nat.dvd_zero _, Nat.pow_pos Nat.two_pos⟩

namespace Double

/-- The order of the values with equality; NaN is not even equal to itself. -/
def le : Double → Double → Bool
  | nan, _ => false
  | _, nan => false
  | a, b => !b.lt a

theorem le_eq {a b : Double} (left : a ≠ nan) (right : b ≠ nan) : a.le b = !b.lt a := by
  cases a with
  | nan => exact absurd rfl left
  | infinite | finite =>
    cases b with
    | nan => exact absurd rfl right
    | infinite | finite => rfl

theorem nearest_zero (negative : Bool) (den : Nat) : nearest negative 0 den = finite negative 0 .zero := by
  have none : significant 0 den = 0 := by simp [significant, roundHalfEven]
  simp only [nearest, none]
  exact dif_pos Representable.zero.2

theorem zero_eq : zero = finite false 0 .zero := by
  rw [zero, ofInt, ofRatio, Int.natAbs_zero, Nat.zero_mul]
  exact nearest_zero _ 1

theorem roundHundredths_zero : zero.roundHundredths = zero := by
  have none : roundHalfEven (0 * 100) unitsPerOne * unitsPerOne = 0 := by simp [roundHalfEven]
  rw [zero_eq, roundHundredths, ofRatio, none, nearest_zero]

theorem ne_nan_of_le {a b : Double} (below : a.le b = true) : b ≠ nan := by
  rintro rfl
  cases a <;> cases below

theorem le_self {d : Double} (number : d ≠ nan) : d.le d = true := by
  rw [le_eq number number]
  cases d <;> simp [lt]

end Double

namespace Cell

variable {d kept : Double}

theorem number_eq_none : number d = none ↔ d = .nan := by
  cases d <;> simp [number]

theorem ne_nan (keeps : number d = some kept) : d ≠ .nan := by
  rintro rfl
  cases keeps

theorem number_ne_nan (keeps : number d = some kept) : kept ≠ .nan := by
  rintro rfl
  cases d <;> cases keeps

/-- What a cell keeps of a number has its value: only the sign of zero is lost. -/
theorem number_lt (keeps : number d = some kept) (other : Double) : kept.lt other = d.lt other ∧ other.lt kept = other.lt d := by
  cases d with
  | nan => cases keeps
  | infinite negative => cases keeps; exact ⟨rfl, rfl⟩
  | finite negative units fits =>
    have same : Double.signed (negative && units ≠ 0) units = Double.signed negative units := by
      by_cases zero : units = 0 <;> simp [Double.signed, zero]
    cases keeps
    cases other <;> simp only [Double.lt, same, and_self]

theorem number_le (keeps : number d = some kept) (other : Double) : kept.le other = d.le other ∧ other.le kept = other.le d := by
  have left := ne_nan keeps
  have right := number_ne_nan keeps
  obtain ⟨below, above⟩ := number_lt keeps other
  by_cases number : other = .nan
  · subst number
    cases d <;> cases keeps <;> exact ⟨rfl, rfl⟩
  · rw [Double.le_eq right number, Double.le_eq left number, Double.le_eq number right, Double.le_eq number left, below, above]
    exact ⟨rfl, rfl⟩

end Cell

namespace Score

/-- An adjusted score is a number without a negative sign. -/
theorem scaled_cases (raw kept : Double) :
    scaled raw kept = .infinite false ∨ ∃ units fits, scaled raw kept = .finite false units fits := by
  have rounded (units : Nat) (fits : Representable units) :
      (Double.finite false units fits).roundHundredths = .infinite false ∨
        ∃ more fitsToo, (Double.finite false units fits).roundHundredths = .finite false more fitsToo := by
    simp only [Double.roundHundredths, Double.ofRatio, Double.nearest]
    split
    next small => exact .inr ⟨_, ⟨Double.significant_dvd _ _, small⟩, rfl⟩
    next => exact .inl rfl
  unfold scaled
  dsimp only
  rw [Double.zero_eq]
  split
  next above =>
    cases product : raw.mul kept with
    | nan => rw [product] at above; cases above
    | infinite negative =>
      rw [product] at above
      cases negative with
      | false => exact .inl rfl
      | true => cases above
    | finite negative units fits =>
      cases negative with
      | false => exact rounded units fits
      | true =>
        rw [product] at above
        simp [Double.lt, Double.signed] at above
        omega
  next => exact rounded 0 .zero

/-- An adjusted score is a number of its own cell: never NaN, and never a negative zero. -/
theorem number_scaled (raw kept : Double) : Cell.number (scaled raw kept) = some (scaled raw kept) := by
  rcases scaled_cases raw kept with same | ⟨units, fits, same⟩
  · rw [same]
    rfl
  · rw [same]
    rfl

theorem zero_le_scaled (raw kept : Double) : Double.zero.le (scaled raw kept) = true := by
  rw [Double.zero_eq]
  rcases scaled_cases raw kept with same | ⟨units, fits, same⟩
  · rw [same]
    rfl
  · rw [same]
    simp [Double.le, Double.lt, Double.signed]

theorem adjust_kept {raw score : Double} {percentage : Int} (adjusts : adjust raw percentage = .ok score) :
    Cell.number score = some score := by
  obtain ⟨kept, _, rfl⟩ := map_eq_ok.mp adjusts
  exact number_scaled raw kept

theorem zero_le_adjust {raw score : Double} {percentage : Int} (adjusts : adjust raw percentage = .ok score) :
    Double.zero.le score = true := by
  obtain ⟨kept, _, rfl⟩ := map_eq_ok.mp adjusts
  exact zero_le_scaled raw kept

theorem scaled_zero (negative : Bool) (fits : Representable 0) (kept : Double) :
    scaled (.finite negative 0 fits) kept = .zero := by
  have notAbove : Double.zero.lt ((Double.finite negative 0 fits).mul kept) = false := by
    rw [Double.zero_eq]
    cases kept with
    | nan | infinite => rfl
    | finite sign units => simp [Double.mul, Double.nearest_zero, Double.lt, Double.signed]
  rw [scaled]
  simp only [notAbove, Bool.false_eq_true, if_false, Double.roundHundredths_zero]

theorem adjust_nan {percentage : Int} {score : Double} (adjusts : adjust .nan percentage = .ok score) : score = .zero := by
  obtain ⟨kept, _, rfl⟩ := map_eq_ok.mp adjusts
  have notAbove : Double.zero.lt (Double.nan.mul kept) = false := by
    rw [Double.zero_eq]
    rfl
  rw [scaled]
  simp only [notAbove, Bool.false_eq_true, if_false, Double.roundHundredths_zero]

theorem scaled_number {raw score : Double} (keeps : Cell.number score = some raw) (kept : Double) :
    scaled raw kept = scaled score kept := by
  cases score with
  | nan => cases keeps
  | infinite negative => cases keeps; rfl
  | finite negative units fits =>
    by_cases zero : units = 0
    · subst zero
      cases keeps
      rw [scaled_zero, scaled_zero]
    · have same : raw = .finite negative units fits := by
        cases keeps
        simp [zero]
      rw [same]

theorem adjust_number {raw score : Double} (keeps : Cell.number score = some raw) (percentage : Int) :
    adjust raw percentage = adjust score percentage := by
  have same : scaled raw = scaled score := funext (scaled_number keeps)
  rw [adjust, adjust, same]

end Score

def InRange (score largest : Double) : Prop := Double.zero.le score = true ∧ score.le largest = true

namespace Service

/-- Of the numbers a grading lets those through that lie between zero and the largest score. -/
theorem isScore_iff {score largest : Double} (number : largest ≠ .nan) :
    isScore score largest = true ↔ score = .nan ∨ InRange score largest := by
  have zero : Double.zero ≠ .nan := by simp [Double.zero_eq]
  by_cases none : score = .nan
  · subst none
    cases largest <;> simp [isScore, Double.lt]
  · rw [InRange, Double.le_eq zero none, Double.le_eq none number, isScore]
    simp [none]

end Service

theorem Sound.maxScore {tables : Tables} (sound : Sound tables) {id : Int} {assignment : Assignment}
    (placed : tables.assignment? id = some assignment) : assignment.maxScore ≠ .nan := by
  obtain ⟨largest, number, same⟩ := Assignment.stored?_eq_some.mp (sound.assignment placed)
  have own : assignment.maxScore = largest := congrArg Assignment.maxScore same
  rw [own]
  exact Cell.number_ne_nan number

variable {tables after : Tables} {context : Context} {call : Call} {id : Int}

theorem Service.graded_row (sound : Sound tables) {fault : Option Nat} {form : GradeForm} {view : SubmissionView}
    (replied : (answer context fault (.grade id form) tables).1 = .ok (.submission view)) :
    ∃ row assignment score, tables.submission? id = some row ∧ row.isFinished = true ∧
      tables.assignment? row.assignment = some assignment ∧
      (form.score = .nan ∨ InRange form.score assignment.maxScore) ∧
      (answer context fault (.grade id form) tables).2.submission? id = some view.row ∧
      view.row.rawScore = Cell.number form.score ∧ view.row.score = some score ∧
      Score.adjust form.score view.row.penalty = .ok score := by
  rcases answer_grade context fault id form tables with
    ⟨unanswered, _⟩ | ⟨row, assignment, penalty, score, after, found, finished, placed, inside, _, scored, saved, same⟩
  · exact absurd replied (unanswered view)
  · rw [same] at replied ⊢
    cases replied
    obtain rfl := Table.find?_key found
    have within := (isScore_iff (sound.maxScore placed)).mp inside
    have number := Score.adjust_kept scored
    exact ⟨row, assignment, score, found, finished, placed, within, (Tables.putSubmission_found saved).2, rfl, number, scored⟩

theorem Commit.maxScore_kept (commit : Commit context call tables after) (sound : Sound tables) {n : Int}
    {assignment : Assignment} (placed : tables.assignment? n = some assignment) :
    ∃ kept, after.assignment? n = some kept ∧ kept.maxScore = assignment.maxScore := by
  rcases commit.assignment_eq n with same | ⟨absent, _⟩ | ⟨_, row, policy, _, found, changed⟩
  · exact ⟨assignment, same.trans placed, rfl⟩
  · cases placed.symm.trans absent
  · cases found.symm.trans placed
    obtain ⟨largest, number, whole⟩ := Assignment.stored?_eq_some.mp (sound.assignment found)
    have keeps : ({ assignment with policy } : Assignment).stored? = _ := Assignment.stored?_eq_some.mpr ⟨largest, number, rfl⟩
    exact ⟨_, changed.trans keeps, (congrArg Assignment.maxScore whole).symm⟩

theorem Sound.regraded_row (sound : Sound tables) {row old kept : Submission} (saved : tables.putSubmission row = .ok after)
    (found : tables.submission? row.id = some old) (raw : row.rawScore = old.rawScore) (gradedAt : row.gradedAt = old.gradedAt)
    (placed : row.assignment = old.assignment) (present : after.submission? id = some kept) :
    ∃ row, tables.submission? id = some row ∧ row.gradedAt = kept.gradedAt ∧ row.rawScore = kept.rawScore ∧
      row.assignment = kept.assignment := by
  rw [Tables.submission?_put saved] at present
  split at present
  next own =>
    cases present
    have whole := sound.submission found
    refine ⟨old, by rw [own, found], ?_, ?_, placed.symm⟩
    · rw [Submission.stored, gradedAt]
      exact (congrArg Submission.gradedAt whole).symm
    · rw [Submission.stored, raw]
      exact (congrArg Submission.rawScore whole).symm
  next => exact ⟨kept, present, rfl, rfl, rfl⟩

/-- What a commit leaves of a graded submission is of the grading that there was, or of the one that is asked for. -/
theorem Commit.grading (commit : Commit context call tables after) (sound : Sound tables) {kept : Submission}
    (present : after.submission? id = some kept) (marked : kept.gradedAt ≠ none) :
    (∃ row, tables.submission? id = some row ∧ row.gradedAt = kept.gradedAt ∧ row.rawScore = kept.rawScore ∧
      row.assignment = kept.assignment) ∨
    ∃ form assignment, call = .grade id form ∧ tables.assignment? kept.assignment = some assignment ∧
      Service.isScore form.score assignment.maxScore = true ∧ kept.rawScore = Cell.number form.score := by
  cases commit with
  | create asked made saved =>
    obtain ⟨_, _, _, rfl⟩ := Tables.putAssignment_eq_ok.mp saved
    exact .inl ⟨kept, present, rfl, rfl, rfl⟩
  | changePolicy asked found inside made saved =>
    obtain ⟨_, _, _, rfl⟩ := Tables.putAssignment_eq_ok.mp saved
    exact .inl ⟨kept, present, rfl, rfl, rfl⟩
  | start asked admitted allFinished saved =>
    rw [Tables.submission?_put saved] at present
    split at present
    next => cases present; exact absurd rfl marked
    next => exact .inl ⟨kept, present, rfl, rfl, rfl⟩
  | handIn asked found unfinished saved =>
    obtain rfl := Table.find?_key found
    exact .inl (sound.regraded_row saved found rfl rfl rfl present)
  | judge found finishedAt placed judged =>
    rw [Tables.submission?, judged.submissions] at present
    exact .inl ⟨kept, present, rfl, rfl, rfl⟩
  | rescore found finishedAt charged scored saved => exact .inl (sound.regraded_row saved found rfl rfl rfl present)
  | @grade graded form row assignment _ _ _ asked found finished placed inside charged scored saved =>
    obtain rfl := Table.find?_key found
    have read : after.submission? id = if id = row.id then _ else tables.submission? id := Tables.submission?_put saved id
    rw [read] at present
    split at present
    next own =>
      cases present
      exact .inr ⟨form, assignment, by rw [asked, own], placed, inside, rfl⟩
    next => exact .inl ⟨kept, present, rfl, rfl, rfl⟩

/-- The raw score of a graded submission: in the range, or null where that is allowed. -/
def Scored (nulls : Prop) (tables : Tables) (id : Int) : Prop :=
  ∀ row, tables.submission? id = some row → row.gradedAt ≠ none →
    ∃ assignment, tables.assignment? row.assignment = some assignment ∧ match row.rawScore with
      | none => nulls
      | some raw => InRange raw assignment.maxScore

theorem Scored.mono {nulls more : Prop} (scored : Scored nulls tables id) (weaker : nulls → more) : Scored more tables id := by
  intro row found marked
  obtain ⟨assignment, placed, inside⟩ := scored row found marked
  refine ⟨assignment, placed, ?_⟩
  cases raw : row.rawScore with
  | none =>
    rw [raw] at inside
    exact weaker inside
  | some score =>
    rw [raw] at inside
    exact inside

theorem Commit.scored (commit : Commit context call tables after) (sound : Sound tables) {nulls : Prop}
    (sent : ∀ form, call = .grade id form → form.score = .nan → nulls) (scored : Scored nulls tables id) :
    Scored nulls after id := by
  intro kept present marked
  rcases commit.grading sound present marked with
    ⟨row, found, gradedAt, raw, assigned⟩ | ⟨form, assignment, asked, placed, inside, raw⟩
  · obtain ⟨assignment, placed, inside⟩ := scored row found (by rw [gradedAt]; exact marked)
    rw [assigned] at placed
    obtain ⟨still, placedToo, largest⟩ := commit.maxScore_kept sound placed
    refine ⟨still, placedToo, ?_⟩
    rw [← raw, largest]
    exact inside
  · obtain ⟨still, placedToo, largest⟩ := commit.maxScore_kept sound placed
    refine ⟨still, placedToo, ?_⟩
    rw [raw, largest]
    cases number : Cell.number form.score with
    | none => exact sent form asked (Cell.number_eq_none.mp number)
    | some score =>
      have within := (Service.isScore_iff (sound.maxScore placed)).mp inside
      have notNan := Cell.ne_nan number
      obtain ⟨above, below⟩ := within.resolve_left notNan
      exact ⟨((Cell.number_le number _).2).trans above, ((Cell.number_le number _).1).trans below⟩

namespace History

def SentNan (history : List Event) (id : Int) : Prop :=
  ∃ event ∈ history, ∃ form, event.request.call = .ok (.ok (.grade id form)) ∧ form.score = .nan

theorem scored (history : List Event) (id : Int) : Scored (SentNan history id) (History.tables history) id := by
  induction history with
  | nil => intro row found; cases found
  | cons event earlier ih =>
    have before : Scored (SentNan (event :: earlier) id) (History.tables earlier) id :=
      ih.mono fun ⟨other, inside, sent⟩ => ⟨other, List.mem_cons_of_mem event inside, sent⟩
    refine carried_sound (fun reached => Scored _ reached id) before fun asked commit sound kept => ?_
    refine commit.scored sound (fun form same none => ?_) kept
    subst same
    exact ⟨event, List.mem_cons_self, form, asked, none⟩

/-- A grading that is answered with the submission was of a finished one, and its score was in the range or NaN. A score
in the range is stored, the score that counts is adjusted from it, and NaN is stored as null. So a graded submission has
a raw score in the range unless NaN was sent for it. -/
theorem scores_inside (history : List Event) :
    (∀ event id form view, event.request.call = .ok (.ok (.grade id form)) → answer event history = .ok (.submission view) →
      ∃ row assignment score, (History.tables history).submission? id = some row ∧ row.isFinished = true ∧
        (History.tables history).assignment? row.assignment = some assignment ∧
        (History.tables (event :: history)).submission? id = some view.row ∧ view.row.score = some score ∧
        (form.score = .nan ∧ view.row.rawScore = none ∧ score = .zero ∨
          InRange form.score assignment.maxScore ∧ ∃ raw, view.row.rawScore = some raw ∧ raw.le form.score = true ∧
            form.score.le raw = true ∧ Score.adjust raw view.row.penalty = .ok score)) ∧
    ∀ row ∈ (History.tables history).submissions, row.gradedAt ≠ none →
      ∃ assignment, (History.tables history).assignment? row.assignment = some assignment ∧
        (row.rawScore = none ∧ SentNan history row.id ∨
          ∃ raw, row.rawScore = some raw ∧ InRange raw assignment.maxScore) := by
  refine ⟨fun event id form view asked replied => ?_, fun row member marked => ?_⟩
  · have served := Service.serve_call asked event.context event.faultAfter (History.tables history)
    rw [answer, served] at replied
    rw [History.tables, served]
    obtain ⟨row, assignment, score, found, finished, placed, within, present, raw, scored, adjusts⟩ :=
      Service.graded_row (sound history) replied
    refine ⟨row, assignment, score, found, finished, placed, present, scored, ?_⟩
    cases number : Cell.number form.score with
    | none =>
      have sent := Cell.number_eq_none.mp number
      rw [sent] at adjusts
      exact .inl ⟨sent, raw.trans number, Score.adjust_nan adjusts⟩
    | some kept =>
      have notNan := Cell.ne_nan number
      obtain ⟨below, above⟩ := Cell.number_le number form.score
      have same := Double.le_self notNan
      refine .inr ⟨within.resolve_left notNan, kept, raw.trans number, below.trans same, above.trans same, ?_⟩
      rw [Score.adjust_number number]
      exact adjusts
  · have found := Table.find?_of_mem (sound history).submissions member
    obtain ⟨assignment, placed, inside⟩ := scored history row.id row found marked
    refine ⟨assignment, placed, ?_⟩
    cases raw : row.rawScore with
    | none =>
      rw [raw] at inside
      exact .inl ⟨rfl, inside⟩
    | some score =>
      rw [raw] at inside
      exact .inr ⟨score, rfl, inside⟩

/-- An attempt at an assignment without a due instant is finished and graded with the full score. -/
def fullScore : List Event := [
  .plain 63845100000000000 .patch ["submissions", "1", "grade"] [("score", .str "100")],
  .plain 63845000000000000 .post ["submissions", "1", "finish"] [],
  .plain 63840000000000000 .post ["assignments", "1", "submissions"] [("student_id", .int 7)],
  .plain 63830000000000000 .post ["assignments"] [("title", .str "Essay")]]

/-- It is graded with NaN instead. -/
def nanScore : Event := .plain 63845100000000000 .patch ["submissions", "1", "grade"] [("score", .str "nan")]

theorem scores_inside_fullScore : ∃ row ∈ (History.tables fullScore).submissions, ∃ assignment raw score,
    (History.tables fullScore).assignment? row.assignment = some assignment ∧ row.rawScore = some raw ∧
      InRange raw assignment.maxScore ∧ row.score = some score ∧ Score.adjust raw row.penalty = .ok score := by
  obtain ⟨form, asked, number⟩ : ∃ form, fullScore[0].request.call = .ok (.ok (.grade 1 form)) ∧ form.score ≠ .nan :=
    ⟨⟨.ofInt 100, none⟩, by decide +kernel, by decide +kernel⟩
  have facts : ∃ row ∈ (History.tables fullScore).submissions,
      answer fullScore[0] fullScore.tail = .ok (.submission ⟨row, false⟩) ∧ row.gradedAt ≠ none := by decide +kernel
  obtain ⟨row, member, replied, marked⟩ := facts
  obtain ⟨_, _, score, _, _, _, _, scored, ⟨none, _⟩ | ⟨_, raw, present, _, _, adjusts⟩⟩ :=
    (scores_inside fullScore.tail).1 _ _ _ _ asked replied
  · exact absurd none number
  obtain ⟨assignment, placed, ⟨none, _⟩ | ⟨_, same, inside⟩⟩ := (scores_inside fullScore).2 row member marked
  · cases none.symm.trans present
  · cases present.symm.trans same
    exact ⟨row, member, assignment, raw, score, placed, present, inside, scored, adjusts⟩

/-- NaN is in no range, and yet the grading is answered with the submission, which is graded and has no raw score. -/
theorem nan_graded : nanScore.request.call = .ok (.ok (.grade 1 ⟨.nan, none⟩)) ∧ (∀ largest, ¬InRange .nan largest) ∧
    Clean (nanScore :: fullScore.tail) ∧ ∃ row ∈ (History.tables (nanScore :: fullScore.tail)).submissions,
      answer nanScore fullScore.tail = .ok (.submission ⟨row, false⟩) ∧ row.gradedAt ≠ none ∧ row.rawScore = none ∧
      row.score = some .zero := by
  refine ⟨by decide +kernel, ?_, by decide +kernel⟩
  rintro largest ⟨_, below⟩
  cases below

end History
end Overdue

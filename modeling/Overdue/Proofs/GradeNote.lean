import Overdue.Proofs.Snapshot
import Overdue.Proofs.Text

/-! The notes on penalties. A note is written when a submission is graded, from the penalty of then and from the policy
that the assignment has then; it is right as long as these are what the row and its late record hold. -/
namespace Overdue

namespace Notes

theorem percent_notMem (n : Int) : '%' ∉ (toString n).toList := by
  have digits (m : Nat) : '%' ∉ m.repr.toList := by
    intro inside
    have digit := Text.isDigit_of_mem_repr inside
    simp at digit
  rw [Int.toString_eq_repr, Int.repr_eq_if]
  split
  · exact digits _
  · simpa using digits _

theorem percent_inj {m n : Int} {x y : String} (same : percent m ++ x = percent n ++ y) : m = n ∧ x = y := by
  have lists := congrArg String.toList same
  simp only [percent, String.toList_append, List.append_assoc] at lists
  obtain ⟨numbers, rest⟩ := Text.cut_inj (percent_notMem m) (percent_notMem n) lists
  exact ⟨Text.repr_injective (String.toList_inj.mp numbers), String.toList_inj.mp rest⟩

/-- A note tells the penalty, the daily percentage and the cap in force. -/
theorem gradeNote_inj {penalty daily cap penalty' daily' cap' : Int} :
    gradeNote penalty daily cap = gradeNote penalty' daily' cap' ↔
      penalty = penalty' ∧ daily = daily' ∧ normalizeCap cap = normalizeCap cap' := by
  unfold gradeNote
  generalize toString (graceMicros / secondMicros) = grace
  simp only [String.append_assoc]
  constructor
  · intro same
    obtain ⟨penalties, rest⟩ := percent_inj ((String.append_right_inj _).mp same)
    obtain ⟨dailies, rest⟩ := percent_inj ((String.append_right_inj _).mp rest)
    have caps := (percent_inj ((String.append_right_inj _).mp ((String.append_right_inj _).mp
      ((String.append_right_inj _).mp rest)))).1
    exact ⟨penalties, dailies, caps⟩
  · rintro ⟨rfl, rfl, caps⟩
    rw [caps]

end Notes

namespace Service

theorem feedbackWith_inj {sent : Option String} {a b : String} :
    feedbackWith (some a) sent = feedbackWith (some b) sent ↔ a = b := by
  unfold feedbackWith
  cases sent.filter (· ≠ "") with
  | none => simp
  | some said => simp [String.append_right_inj]

theorem feedbackWith_ne {sent : Option String} {a : String} : feedbackWith none sent ≠ feedbackWith (some a) sent := by
  unfold feedbackWith
  cases sent.filter (· ≠ "") with
  | none => simp
  | some said =>
    intro same
    have longer := congrArg String.length (Option.some.inj same)
    simp only [String.length_append] at longer
    have newline : "\n".length = 1 := rfl
    omega

end Service

structure Grading where
  penalty : Int
  policy : Policy
  sent : Option String

namespace History

/-- The last grading of a submission that was answered. -/
def graded : List Event → Int → Option Grading
  | [], _ => none
  | event :: earlier, id =>
    match event.request.call, answer event earlier with
    | .ok (.ok (.grade target form)), .ok (.submission view) =>
      if id = target then ((tables earlier).policyOf id).map fun policy => ⟨view.row.penalty, policy, form.feedback⟩
      else graded earlier id
    | _, _ => graded earlier id

end History

/-- A submission has the feedback of a grading, or none if it was not graded. -/
def Remarked (tables : Tables) (id : Int) (grading : Option Grading) : Prop :=
  match tables.submission? id, grading with
  | none, grading => grading = none
  | some row, none => row.feedback = none ∧ row.gradedAt = none
  | some row, some grading => row.gradedAt.isSome = true ∧
    row.feedback = Service.feedbackWith (Service.note? grading.policy grading.penalty) grading.sent

variable {tables after : Tables} {context : Context} {call : Call} {id : Int}

theorem Remarked.of_same {grading : Option Grading} (remarked : Remarked tables id grading)
    (same : after.submission? id = tables.submission? id) : Remarked after id grading := by
  unfold Remarked
  rw [same]
  exact remarked

theorem Remarked.replaced {grading : Option Grading} (remarked : Remarked tables id grading) {row old : Submission}
    (sound : Sound tables) (saved : tables.putSubmission row = .ok after) (found : tables.submission? row.id = some old)
    (feedback : row.feedback = old.feedback) (gradedAt : row.gradedAt = old.gradedAt) : Remarked after id grading := by
  have read := Tables.submission?_put saved id
  by_cases own : id = row.id
  · have kept : row.gradedAt.map Timestamp.stored = old.gradedAt := by
      rw [gradedAt]
      exact congrArg Submission.gradedAt (sound.submission found)
    rw [if_pos own] at read
    unfold Remarked at remarked ⊢
    rw [own, found] at remarked
    rw [read]
    cases grading with
    | none => exact ⟨feedback.trans remarked.1, kept.trans remarked.2⟩
    | some grading => exact ⟨(congrArg Option.isSome kept).trans remarked.1, feedback.trans remarked.2⟩
  · rw [if_neg own] at read
    exact remarked.of_same read

theorem Remarked.added {grading : Option Grading} (remarked : Remarked tables id grading) {row : Submission}
    (saved : tables.putSubmission row = .ok after) (absent : tables.submission? row.id = none)
    (feedback : row.feedback = none) (gradedAt : row.gradedAt = none) : Remarked after id grading := by
  have read := Tables.submission?_put saved id
  by_cases own : id = row.id
  · rw [if_pos own] at read
    unfold Remarked at remarked ⊢
    rw [own, absent] at remarked
    subst remarked
    rw [read]
    exact ⟨feedback, by simp [Submission.stored, gradedAt]⟩
  · rw [if_neg own] at read
    exact remarked.of_same read

theorem Commit.remarked (commit : Commit context call tables after) (other : ∀ id form, call ≠ .grade id form)
    (sound : Sound tables) {grading : Option Grading} (remarked : Remarked tables id grading) : Remarked after id grading := by
  cases commit with
  | create asked made saved =>
    obtain ⟨_, _, _, rfl⟩ := Tables.putAssignment_eq_ok.mp saved
    exact remarked
  | changePolicy asked found inside made saved =>
    obtain ⟨_, _, _, rfl⟩ := Tables.putAssignment_eq_ok.mp saved
    exact remarked
  | start asked admitted allFinished saved =>
    exact remarked.added saved (Table.find?_nextKey Submission.id tables.submissions) rfl rfl
  | handIn asked found unfinished saved =>
    obtain rfl := Table.find?_key found
    exact remarked.replaced sound saved found rfl rfl
  | judge found finishedAt placed judged =>
    exact remarked.of_same (by rw [Tables.submission?, judged.submissions]; rfl)
  | rescore found finishedAt charged scored saved => exact remarked.replaced sound saved found rfl rfl
  | grade asked => exact absurd asked (other _ _)

/-- A grading is answered with the submission and has put it, or is answered otherwise and has changed nothing. -/
theorem Service.answer_grade (context : Context) (fault : Option Nat) (id : Int) (form : GradeForm) (tables : Tables) :
    ((∀ view, (answer context fault (.grade id form) tables).1 ≠ .ok (.submission view)) ∧
      (answer context fault (.grade id form) tables).2 = tables) ∨
    ∃ row assignment penalty score after, tables.submission? id = some row ∧ row.isFinished = true ∧
      tables.assignment? row.assignment = some assignment ∧ isScore form.score assignment.maxScore = true ∧
      Evaluation.charge id context.calendar tables = .ok penalty ∧ Score.adjust form.score penalty = .ok score ∧
      tables.putSubmission (marked context form assignment.policy penalty score row) = .ok after ∧
      answer context fault (.grade id form) tables =
        (.ok (.submission (shown after (marked context form assignment.policy penalty score row).stored)), after) := by
  obtain ⟨attempts, result, after, runs, graded⟩ := perform_yields context (.grade id form) tables
  have only : ∀ left ∈ attempts, left = tables := by cases graded <;> simp
  rcases answer_cases runs fault with same | ⟨left, attempted, same⟩
  · rw [same]
    cases graded with
    | @saved row assignment penalty score _ found finished placed inside charged scored saved =>
      exact .inr ⟨row, assignment, penalty, score, after, found, finished, placed, inside, charged, scored, saved, rfl⟩
    | _ => exact .inl ⟨by simp, rfl⟩
  · rw [same]
    exact .inl ⟨by simp, only left attempted⟩

namespace History

theorem remarked_other {event : Event} {earlier : List Event} (asked : event.request.call = .ok (.ok call))
    (other : ∀ target form, call ≠ .grade target form)
    (holds : Remarked (History.tables earlier) id (graded earlier id)) :
    Remarked (History.tables (event :: earlier)) id (graded (event :: earlier) id) := by
  have same : graded (event :: earlier) id = graded earlier id := by
    rw [graded, asked]
    cases call with
    | grade target form => exact absurd rfl (other target form)
    | _ => rfl
  rw [same]
  refine carried_sound (fun reached => Remarked reached id (graded earlier id)) holds fun askedToo commit sound kept => ?_
  cases asked.symm.trans askedToo
  exact commit.remarked other sound kept

theorem remarked_grade {event : Event} {earlier : List Event} {target : Int} {form : GradeForm}
    (asked : event.request.call = .ok (.ok (.grade target form)))
    (holds : Remarked (History.tables earlier) id (graded earlier id)) :
    Remarked (History.tables (event :: earlier)) id (graded (event :: earlier) id) := by
  have served := Service.serve_call asked event.context event.faultAfter (History.tables earlier)
  rw [History.tables, graded, asked, answer, served]
  rcases Service.answer_grade event.context event.faultAfter target form (History.tables earlier) with
    ⟨unanswered, same⟩ | ⟨row, assignment, penalty, score, after, found, _, placed, _, _, _, saved, same⟩
  · rw [same]
    generalize (Service.answer event.context event.faultAfter (.grade target form) (History.tables earlier)).1 = result
      at unanswered
    cases result with
    | error failure => exact holds
    | ok reply =>
      cases reply with
      | submission view => exact absurd rfl (unanswered view)
      | _ => exact holds
  · rw [same]
    obtain rfl := Table.find?_key found
    have read : after.submission? id = if id = row.id then
        some (Service.marked event.context form assignment.policy penalty score row).stored
        else (History.tables earlier).submission? id := Tables.submission?_put saved id
    dsimp only
    by_cases own : id = row.id
    · rw [if_pos own] at read ⊢
      have policy : (History.tables earlier).policyOf id = some assignment.policy := by
        rw [own, Tables.policyOf, found, Option.bind_some, placed]
        rfl
      unfold Remarked
      rw [policy, read]
      exact ⟨rfl, rfl⟩
    · rw [if_neg own] at read ⊢
      exact holds.of_same read

/-- After every history a submission has the feedback of its last grading. -/
theorem remarked (history : List Event) (id : Int) : Remarked (History.tables history) id (graded history id) := by
  induction history with
  | nil => rfl
  | cons event earlier ih =>
    cases asked : event.request.call with
    | error failure => simpa [History.tables, graded, Service.serve, asked] using ih
    | ok checked =>
      cases checked with
      | error refusal => simpa [History.tables, graded, Service.serve, asked] using ih
      | ok call =>
        by_cases grades : ∃ target form, call = .grade target form
        · obtain ⟨target, form, rfl⟩ := grades
          exact remarked_grade asked ih
        · exact remarked_other asked (fun target form same => grades ⟨target, form, same⟩) ih

/-- Every note that may stand below what the grader sent tells the penalty of the row and the terms of its late record. -/
def Truthful (tables : Tables) (row : Submission) (sent : Option String) : Prop :=
  ∀ penalty daily cap, row.feedback = Service.feedbackWith (some (Notes.gradeNote penalty daily cap)) sent →
    row.penalty ≠ 0 ∧ penalty = row.penalty ∧ ∃ record, tables.late? row.id = some record ∧ daily = record.terms.daily ∧
      normalizeCap cap = normalizeCap record.terms.cap

theorem judged_terms {history : List Event} (clean : Clean history) {row : Submission} {record : LateRecord}
    (found : (History.tables history).submission? row.id = some row)
    (recorded : (History.tables history).late? row.id = some record) :
    ∃ judge, judgedBy history row.id = some judge ∧ record.terms.daily = judge.daily ∧ record.terms.cap = judge.cap := by
  have holds := Snapshot.of_clean clean row.id row found
  cases finishedAt : row.finishedAt with
  | none =>
    rw [finishedAt] at holds
    cases holds.symm.trans recorded
  | some finished =>
    rw [finishedAt] at holds
    obtain ⟨judge, judged, agrees⟩ := holds
    rw [recorded] at agrees
    cases agrees with
    | late late frozen =>
      obtain ⟨due, _, _, _, dueAt, converted, _⟩ := Policy.isLate_eq_true late
      cases (Policy.terms_of_due dueAt converted).symm.trans frozen
      exact ⟨judge, judged, rfl, rfl⟩

/-- The note of a graded submission is truthful exactly if there is none, or if the row still has the penalty of the
grading and its late record has the daily percentage and the cap of the policy of the grading; in a clean history, if
the policy of the last evaluation has them. -/
theorem note_truthful_iff (history : List Event) {row : Submission} (member : row ∈ (History.tables history).submissions)
    (marked : row.gradedAt ≠ none) :
    ∃ grading, graded history row.id = some grading ∧
      (Truthful (History.tables history) row grading.sent ↔ (0 < grading.penalty → grading.penalty = row.penalty ∧
        ∃ record, (History.tables history).late? row.id = some record ∧ grading.policy.daily = record.terms.daily ∧
          normalizeCap grading.policy.cap = normalizeCap record.terms.cap)) ∧
      (Clean history → (Truthful (History.tables history) row grading.sent ↔ (0 < grading.penalty →
        grading.penalty = row.penalty ∧ (History.tables history).late? row.id ≠ none ∧
        ∃ judge, judgedBy history row.id = some judge ∧ grading.policy.daily = judge.daily ∧
          normalizeCap grading.policy.cap = normalizeCap judge.cap))) := by
  have found : (History.tables history).submission? row.id = some row :=
    Table.find?_of_mem (sound history).submissions member
  have holds := remarked history row.id
  unfold Remarked at holds
  rw [found] at holds
  generalize graded history row.id = last at holds
  cases last with
  | none => exact absurd holds.2 marked
  | some grading =>
    obtain ⟨_, feedback⟩ := holds
    have exact_when : Truthful (History.tables history) row grading.sent ↔ (0 < grading.penalty →
        grading.penalty = row.penalty ∧ ∃ record, (History.tables history).late? row.id = some record ∧
          grading.policy.daily = record.terms.daily ∧ normalizeCap grading.policy.cap = normalizeCap record.terms.cap) := by
      refine ⟨fun truthful charged => ?_, fun right penalty daily cap written => ?_⟩
      · rw [Service.note?, if_pos charged] at feedback
        obtain ⟨_, same, record, recorded, terms⟩ := truthful _ _ _ feedback
        exact ⟨same, record, recorded, terms⟩
      · rw [feedback, Service.note?] at written
        by_cases charged : 0 < grading.penalty
        · rw [if_pos charged, Service.feedbackWith_inj, Notes.gradeNote_inj] at written
          obtain ⟨rfl, rfl, caps⟩ := written
          obtain ⟨same, record, recorded, daily, limit⟩ := right charged
          exact ⟨by omega, same, record, recorded, daily, caps ▸ limit⟩
        · rw [if_neg charged] at written
          exact absurd written Service.feedbackWith_ne
    refine ⟨grading, rfl, exact_when, fun clean => exact_when.trans (forall_congr' fun _ => and_congr_right fun _ => ?_)⟩
    constructor
    · rintro ⟨record, recorded, daily, cap⟩
      obtain ⟨judge, judged, sameDaily, sameCap⟩ := judged_terms clean found recorded
      exact ⟨by simp [recorded], judge, judged, daily.trans sameDaily, by rw [cap, sameCap]⟩
    · rintro ⟨present, judge, judged, daily, cap⟩
      obtain ⟨record, recorded⟩ := Option.ne_none_iff_exists'.mp present
      obtain ⟨other, same, sameDaily, sameCap⟩ := judged_terms clean found recorded
      cases judged.symm.trans same
      exact ⟨record, recorded, daily.trans sameDaily.symm, by rw [cap, sameCap]⟩

/-- A late attempt is graded after the policy was changed. -/
def staleTerms : List Event := [
  .plain 63845200000000000 .patch ["submissions", "1", "grade"] [("score", .int 80)],
  .plain 63845100000000000 .patch ["assignments", "1", "late-policy"] [("daily_percentage_penalty", .int 10)],
  .plain 63845000000000000 .post ["submissions", "1", "finish"] [],
  .plain 63840000000000000 .post ["assignments", "1", "submissions"] [("student_id", .int 7)],
  .plain 63830000000000000 .post ["assignments"]
    [("title", .str "Essay"), ("due_at", .str "2024-01-02T03:04:05Z")]]

/-- The due instant is taken back afterwards, and the attempt is regraded. -/
def stalePenalty : List Event := [
  .plain 63845400000000000 .post ["submissions", "1", "regrade"] [],
  .plain 63845300000000000 .patch ["assignments", "1", "late-policy"] [("due_at", .null)]] ++ staleTerms

theorem note_truthful_iff_staleTerms : ∃ row ∈ (History.tables staleTerms).submissions,
    ∃ grading, graded staleTerms row.id = some grading ∧ ¬Truthful (History.tables staleTerms) row grading.sent := by
  have facts : ∃ row ∈ (History.tables staleTerms).submissions, row.gradedAt ≠ none ∧
      (graded staleTerms row.id).map (fun grading => (grading.penalty, grading.policy.daily)) = some (50, 10) ∧
      ((History.tables staleTerms).late? row.id).map (·.terms.daily) = some 5 := by decide +kernel
  obtain ⟨row, member, marked, numbers, recorded⟩ := facts
  obtain ⟨grading, found, exactly, _⟩ := note_truthful_iff staleTerms member marked
  rw [found, Option.map_some, Option.some.injEq, Prod.mk.injEq] at numbers
  refine ⟨row, member, grading, found, fun truthful => ?_⟩
  obtain ⟨_, record, present, daily, _⟩ := exactly.mp truthful (by omega)
  rw [present, Option.map_some, Option.some.injEq] at recorded
  omega

/-- The note tells the percentage of the assignment where the record was charged by another, and a note of a penalty
stays where the penalty has become zero. -/
theorem stale_notes :
    (Clean staleTerms ∧ ∃ row ∈ (History.tables staleTerms).submissions,
      row.feedback = some "Late penalty applied: -50% (10% per working day, grace 60s, cap 50%)." ∧
      ∃ record ∈ (History.tables staleTerms).lateRecords, record.submission = row.id ∧ record.terms.daily = 5) ∧
    Clean stalePenalty ∧ ∃ row ∈ (History.tables stalePenalty).submissions, row.penalty = 0 ∧
      row.feedback = some "Late penalty applied: -50% (10% per working day, grace 60s, cap 50%)." := by
  decide +kernel

end History
end Overdue

import Mathlib.Data.Set.Basic
import Overdue.Proofs.Snapshot

/-! What a request may write. A call has a footprint, the rows that it names or makes; however the call ends, all other
rows are as they were. A request that is refused or that only reads writes nothing, nor does a call of one commit where that
commit fails. -/
namespace Overdue

open Failure Relation

section

variable {context : Context} {calendar : Calendar} {tables middle after : Tables} {attempts : List Tables} {id : Int}
  {call : Call}

/-- Numbers of assignments, and of submissions with their late records. -/
structure Footprint where
  assignments : Set Int := ∅
  submissions : Set Int := ∅

/-- The rows that a call names or makes. -/
def Call.footprint (tables : Tables) : Call → Footprint
  | .create _ => { assignments := {Table.nextKey Assignment.id tables.assignments} }
  | .changePolicy id _ => { assignments := {id} }
  | .start _ _ => { submissions := {Table.nextKey Submission.id tables.submissions} }
  | .finish id _ | .grade id _ | .regrade id => { submissions := {id} }
  | .regradeAll id => { submissions := {number | ∃ row ∈ Evaluation.finishedOf id tables, row.id = number} }
  | .health | .read _ | .list _ | .penalty _ => {}

def Call.onlyReads : Call → Bool
  | .health | .read _ | .list _ | .penalty _ => true
  | _ => false

/-- The calls that write once; the others that write go on to evaluate. -/
def Call.commitsOnce : Call → Bool
  | .create _ | .changePolicy _ _ | .start _ _ | .grade _ _ => true
  | _ => false

/-- The rows outside a footprint are as they were. -/
structure Footprint.Confines (footprint : Footprint) (tables after : Tables) : Prop where
  assignments : ∀ id ∉ footprint.assignments, after.assignment? id = tables.assignment? id
  submissions : ∀ id ∉ footprint.submissions, after.submission? id = tables.submission? id
  lateRecords : ∀ id ∉ footprint.submissions, after.late? id = tables.late? id

namespace Footprint.Confines

variable {footprint : Footprint}

theorem refl (footprint : Footprint) (tables : Tables) : footprint.Confines tables tables :=
  ⟨fun _ _ => rfl, fun _ _ => rfl, fun _ _ => rfl⟩

theorem trans (first : footprint.Confines tables middle) (second : footprint.Confines middle after) :
    footprint.Confines tables after where
  assignments id outside := (second.assignments id outside).trans (first.assignments id outside)
  submissions id outside := (second.submissions id outside).trans (first.submissions id outside)
  lateRecords id outside := (second.lateRecords id outside).trans (first.lateRecords id outside)

theorem of_reached (reached : ReflTransGen footprint.Confines tables after) : footprint.Confines tables after := by
  induction reached with
  | refl => exact refl footprint tables
  | tail _ step ih => exact ih.trans step

theorem putAssignment {row : Assignment} (saved : tables.putAssignment row = .ok after)
    (inside : row.id ∈ footprint.assignments) : footprint.Confines tables after := by
  obtain ⟨kept, _, read⟩ := Tables.assignment?_put saved
  obtain ⟨_, _, _, rfl⟩ := Tables.putAssignment_eq_ok.mp saved
  refine ⟨fun id outside => ?_, fun _ _ => rfl, fun _ _ => rfl⟩
  have apart : id ≠ row.id := fun same => outside (same ▸ inside)
  rw [read, if_neg apart]

theorem putSubmission {row : Submission} (saved : tables.putSubmission row = .ok after)
    (inside : row.id ∈ footprint.submissions) : footprint.Confines tables after := by
  have read := Tables.submission?_put saved
  obtain ⟨_, _, rfl⟩ := Tables.putSubmission_eq_ok.mp saved
  refine ⟨fun _ _ => rfl, fun id outside => ?_, fun _ _ => rfl⟩
  have apart : id ≠ row.id := fun same => outside (same ▸ inside)
  rw [read, if_neg apart]

end Footprint.Confines

namespace Evaluation

variable {footprint : Footprint}

theorem Judged.confined {finished : Timestamp} {policy : Policy} {result : Except Failure Action}
    (judged : Judged id finished policy tables attempts result after) (inside : id ∈ footprint.submissions) :
    Visits footprint.Confines tables attempts after := by
  have confines : footprint.Confines tables after := by
    refine ⟨fun other _ => ?_, fun other _ => ?_, fun other outside => judged.late?_other fun same => outside (same ▸ inside)⟩
    · rw [Tables.assignment?, judged.assignments]
      rfl
    · rw [Tables.submission?, judged.submissions]
      rfl
  rcases judged.attempts_eq with rfl | rfl
  · exact ⟨fun _ attempted => absurd attempted List.not_mem_nil, .single confines⟩
  · exact .saved (.single confines)

theorem Rescored.confined {row : Submission} {result : Except Failure Int}
    (rescored : Rescored row calendar tables attempts result after) (inside : row.id ∈ footprint.submissions) :
    Visits footprint.Confines tables attempts after := by
  cases rescored with
  | uncharged | unscored => exact .nil tables
  | unsaved => exact .unsaved tables
  | saved charged scored saved => exact .saved (.single (.putSubmission saved inside))

theorem Regraded.confined {result : Except Failure Int}
    (regraded : Regraded id calendar tables attempts result after) (inside : id ∈ footprint.submissions) :
    Visits footprint.Confines tables attempts after := by
  cases regraded with
  | wide | missing | unfinished | unplaced => exact .nil tables
  | unjudged found finishedAt placed judged => exact judged.confined inside
  | rescored found finishedAt placed judged rescored =>
    obtain rfl := Table.find?_key found
    exact (judged.confined inside).append (rescored.confined inside)

theorem Reviewed.confined {ids : List Int} {result : Except Failure Unit}
    (reviewed : Reviewed calendar ids tables attempts result after) (inside : ∀ id ∈ ids, id ∈ footprint.submissions) :
    Visits footprint.Confines tables attempts after := by
  induction reviewed with
  | nil tables => exact .nil tables
  | failed regraded => exact regraded.confined (List.forall_mem_cons.mp inside).1
  | cons regraded _ ih =>
    obtain ⟨first, others⟩ := List.forall_mem_cons.mp inside
    exact (regraded.confined first).append (ih others)

end Evaluation

namespace Service

variable {result : Except Failure Reply}

theorem Answered.confined (answered : Answered context tables call attempts result after) :
    Visits (call.footprint tables).Confines tables attempts after := by
  cases call with
  | create form =>
    cases answered with
    | unread => exact .nil tables
    | unsaved => exact .unsaved tables
    | saved made saved => exact .saved (.single (.putAssignment saved rfl))
  | changePolicy id change =>
    cases answered with
    | saved found inside made saved =>
      have own := Table.find?_key found
      exact .saved (.single (.putAssignment saved own))
    | unsaved => exact .unsaved tables
    | _ => exact .nil tables
  | start id form =>
    cases answered with
    | saved admitted allFinished saved => exact .saved (.single (.putSubmission saved rfl))
    | unsaved => exact .unsaved tables
    | _ => exact .nil tables
  | finish id form =>
    cases answered with
    | wide | missing | already => exact .nil tables
    | unsaved => exact .unsaved tables
    | failed found unfinished saved regraded | answered found unfinished saved regraded =>
      have own := Table.find?_key found
      have handedIn : Footprint.Confines { submissions := {id} } tables _ := .putSubmission saved own
      exact (Visits.saved (.single handedIn)).append (regraded.confined rfl)
  | grade id form =>
    cases answered with
    | saved found finished placed inside charged scored saved =>
      have own := Table.find?_key found
      exact .saved (.single (.putSubmission saved own))
    | unsaved => exact .unsaved tables
    | _ => exact .nil tables
  | regrade id =>
    cases answered with
    | wide | missing | unfinished => exact .nil tables
    | failed found finished regraded | answered found finished regraded => exact regraded.confined rfl
  | regradeAll id =>
    cases answered with
    | wide | missing => exact .nil tables
    | reviewed found reviewed => exact reviewed.confined fun number listed => List.mem_map.mp listed
  | health | read | list | penalty =>
    obtain ⟨rfl, _, rfl⟩ := answered
    exact .nil _

theorem Answered.unwritten (answered : Answered context tables call attempts result after) (reads : call.onlyReads = true) :
    attempts = [] ∧ after = tables := by
  cases call with
  | health | read | list | penalty => exact ⟨answered.1, answered.2.2⟩
  | _ => cases reads

/-- A refusal comes before the first commit. -/
theorem Answered.refused (answered : Answered context tables call attempts result after) {refusal : Refusal}
    (refuses : result = .ok (.refused refusal)) : attempts = [] ∧ after = tables := by
  cases call with
  | create form =>
    cases answered with
    | unread => exact ⟨rfl, rfl⟩
    | unsaved => cases refuses
    | saved =>
      obtain ⟨_, _, same⟩ := map_eq_ok.mp refuses
      cases same
  | changePolicy id change =>
    cases answered with
    | saved =>
      obtain ⟨_, _, same⟩ := map_eq_ok.mp refuses
      cases same
    | unsaved => cases refuses
    | _ => exact ⟨rfl, rfl⟩
  | start id form =>
    cases answered with
    | saved | unsaved => cases refuses
    | _ => exact ⟨rfl, rfl⟩
  | finish id form =>
    cases answered with
    | wide | missing | already => exact ⟨rfl, rfl⟩
    | _ => cases refuses
  | grade id form =>
    cases answered with
    | saved | unsaved => cases refuses
    | _ => exact ⟨rfl, rfl⟩
  | regrade id =>
    cases answered with
    | wide | missing | unfinished => exact ⟨rfl, rfl⟩
    | _ => cases refuses
  | regradeAll id =>
    cases answered with
    | wide | missing => exact ⟨rfl, rfl⟩
    | reviewed =>
      obtain ⟨_, _, same⟩ := map_eq_ok.mp refuses
      cases same
  | health | read | list | penalty => exact ⟨answered.1, answered.2.2⟩

theorem viewAssignment_only (context : Context) (row : Assignment) : Only .outOfRange (viewAssignment context row) := by
  refine only_map (only_bind row.policy.due?_only fun due => ?_)
  cases due with
  | none => exact only_ok _
  | some due => exact only_bind (Timestamp.utc_only _) fun _ => only_bind (Reading.shift_only _ _) fun _ => only_ok _

/-- Where a call commits once, what comes after the commit fails at the end of the years only. -/
theorem Answered.once (answered : Answered context tables call attempts result after) (once : call.commitsOnce = true) :
    (∀ left ∈ attempts, left = tables) ∧
      ∀ failure, result = .error failure → failure ≠ .outOfRange → after = tables := by
  have attempted : ∀ left ∈ [tables], left = tables := fun left inside => List.mem_singleton.mp inside
  have none : ∀ left ∈ ([] : List Tables), left = tables := fun left inside => absurd inside List.not_mem_nil
  cases call with
  | create form =>
    cases answered with
    | unread => exact ⟨none, fun _ _ _ => rfl⟩
    | unsaved => exact ⟨attempted, fun _ _ _ => rfl⟩
    | saved =>
      refine ⟨attempted, fun failure failed other => absurd ?_ other⟩
      exact only_map (viewAssignment_only _ _) failure failed
  | changePolicy id change =>
    cases answered with
    | unsaved => exact ⟨attempted, fun _ _ _ => rfl⟩
    | saved =>
      refine ⟨attempted, fun failure failed other => absurd ?_ other⟩
      exact only_map (viewAssignment_only _ _) failure failed
    | _ => exact ⟨none, fun _ _ _ => rfl⟩
  | start id form =>
    cases answered with
    | unsaved => exact ⟨attempted, fun _ _ _ => rfl⟩
    | saved => exact ⟨attempted, fun _ failed => by cases failed⟩
    | _ => exact ⟨none, fun _ _ _ => rfl⟩
  | grade id form =>
    cases answered with
    | unsaved => exact ⟨attempted, fun _ _ _ => rfl⟩
    | saved => exact ⟨attempted, fun _ failed => by cases failed⟩
    | _ => exact ⟨none, fun _ _ _ => rfl⟩
  | _ => cases once

theorem answer_confined (context : Context) (fault : Option Nat) (call : Call) (tables : Tables) :
    (call.footprint tables).Confines tables (answer context fault call tables).2 := by
  obtain ⟨attempts, result, after, runs, answered⟩ := perform_yields context call tables
  obtain ⟨early, last⟩ := answered.confined
  rcases answer_cases runs fault with same | ⟨left, attempted, same⟩
  · rw [same]
    exact .of_reached last
  · rw [same]
    exact .of_reached (early left attempted)

theorem answer_reads (reads : call.onlyReads = true) (context : Context) (fault : Option Nat) (tables : Tables) :
    (answer context fault call tables).2 = tables := by
  obtain ⟨attempts, result, after, runs, answered⟩ := perform_yields context call tables
  obtain ⟨rfl, rfl⟩ := answered.unwritten reads
  rw [answer_unwritten runs fault]

theorem answer_refused {fault : Option Nat} {refusal : Refusal}
    (refused : (answer context fault call tables).1 = .ok (.refused refusal)) : (answer context fault call tables).2 = tables := by
  obtain ⟨attempts, result, after, runs, answered⟩ := perform_yields context call tables
  rcases answer_cases runs fault with same | ⟨left, attempted, same⟩
  · rw [same] at refused ⊢
    exact (answered.refused refused).2
  · rw [same] at refused
    cases refused

theorem answer_once (once : call.commitsOnce = true) {fault : Option Nat} {failure : Failure}
    (failed : (answer context fault call tables).1 = .error failure) (committing : failure ≠ .outOfRange) :
    (answer context fault call tables).2 = tables := by
  obtain ⟨attempts, result, after, runs, answered⟩ := perform_yields context call tables
  obtain ⟨early, last⟩ := answered.once once
  rcases answer_cases runs fault with same | ⟨left, attempted, same⟩
  · rw [same] at failed ⊢
    exact last failure failed committing
  · rw [same]
    exact early left attempted

end Service

theorem Work.commit_fails {session left : Session} {failure : Failure} (fails : commit session = .error failure left) :
    failure = .commitFailed ∨ failure = .cellTooWide ∨ failure = .constraint := by
  unfold commit at fails
  split at fails
  next =>
    cases fails
    exact .inl rfl
  next =>
    dsimp only at fails
    split at fails
    next => cases fails
    next refused =>
      cases fails
      exact .inr (Tables.applyAll_fails refused)

theorem Call.onlyReads_of_number {f : Int → Call} {number : Checked Int} (told : ofChecked (f <$> number) = .ok call)
    (all : ∀ n, (f n).onlyReads = true) : call.onlyReads = true := by
  obtain ⟨n, _, rfl⟩ := ofChecked_map_eq_ok told
  exact all n

theorem Request.onlyReads_of_get {request : Request} (asked : request.call = .ok (.ok call)) (get : request.method = .get) :
    call.onlyReads = true := by
  unfold Request.call at asked
  split at asked
  next => cases asked
  next place _ =>
    rw [get] at asked
    cases place with
    | health =>
      cases asked
      rfl
    | assignment | attempts | penalty => exact Call.onlyReads_of_number (Except.ok.inj asked) fun _ => rfl
    | _ => cases asked

theorem Reply.refused_of_status {reply : Reply} (status : 400 ≤ reply.status) : ∃ refusal, reply = .refused refusal := by
  cases reply with
  | refused refusal => exact ⟨refusal, rfl⟩
  | _ => simp [Reply.status] at status

end

namespace History

/-- A request that is turned away, refused or only reads leaves the tables as they were, and so does a call of one commit that
ends as a commit fails. Every call, however it ends, keeps to the rows that it names or makes. -/
theorem writes_confined (event : Event) (history : List Event) :
    (∀ reply, answer event history = .ok reply → 400 ≤ reply.status → reply.status < 500 →
      tables (event :: history) = tables history) ∧
    (event.request.method = .get → tables (event :: history) = tables history) ∧
    ((∀ call, event.request.call ≠ .ok (.ok call)) → tables (event :: history) = tables history) ∧
    ∀ call, event.request.call = .ok (.ok call) →
      (call.footprint (tables history)).Confines (tables history) (tables (event :: history)) ∧
      ∀ session left failure, Work.commit session = .error failure left → call.commitsOnce = true →
        answer event history = .error failure → tables (event :: history) = tables history := by
  have turned (none : ∀ call, event.request.call ≠ .ok (.ok call)) : tables (event :: history) = tables history := by
    rw [tables]
    unfold Service.serve
    split
    · rfl
    · rfl
    next call asked => exact absurd asked (none call)
  have either : (∀ call, event.request.call ≠ .ok (.ok call)) ∨ ∃ call, event.request.call = .ok (.ok call) := by
    by_cases asks : ∃ call, event.request.call = .ok (.ok call)
    · exact .inr asks
    · exact .inl (not_exists.mp asks)
  refine ⟨fun reply replied status _ => ?_, fun get => ?_, turned, fun call asked => ⟨?_, ?_⟩⟩
  · rcases either with none | ⟨call, asked⟩
    · exact turned none
    obtain ⟨refusal, rfl⟩ := Reply.refused_of_status status
    obtain ⟨replies, leaves⟩ := answer_call asked history
    rw [leaves]
    exact Service.answer_refused (replies ▸ replied)
  · rcases either with none | ⟨call, asked⟩
    · exact turned none
    rw [(answer_call asked history).2]
    exact Service.answer_reads (Request.onlyReads_of_get asked get) _ _ _
  · rw [(answer_call asked history).2]
    exact Service.answer_confined _ _ call _
  · intro session left failure fails once failed
    obtain ⟨replies, leaves⟩ := answer_call asked history
    have committing : failure ≠ .outOfRange := by
      rcases Work.commit_fails fails with rfl | rfl | rfl <;> simp
    rw [leaves]
    exact Service.answer_once once (replies ▸ failed) committing

/-- The first of two attempts is finished late, and then the cap is lowered. -/
def lightened : List Event := [
  .plain 63841300000000000 .patch ["assignments", "1", "late-policy"] [("max_percentage_penalty", .int 30)],
  .plain 63841200000000000 .post ["submissions", "1", "finish"] [],
  .plain 63841100000000000 .post ["assignments", "1", "submissions"] [("student_id", .int 8)],
  .plain 63841000000000000 .post ["assignments", "1", "submissions"] [("student_id", .int 7)],
  .plain 63830000000000000 .post ["assignments"]
    [("title", .str "Essay"), ("due_at", .str "2024-01-02T00:00:00Z"), ("daily_percentage_penalty", .int 10)]]

def openGraded : Event := .plain 63841400000000000 .patch ["submissions", "2", "grade"] [("score", .int 80)]

def penaltyAsked : Event := .plain 63841400000000000 .get ["submissions", "1", "penalty"] []

def gradeStruck : Event :=
  { Event.plain 63841400000000000 .patch ["submissions", "1", "grade"] [("score", .int 80)] with faultAfter := some 0 }

def resweep : Event := .plain 63841400000000000 .post ["assignments", "1", "regrade"] []

theorem writes_confined_lightened :
    (answer openGraded lightened = .ok (.refused .unfinished) ∧ tables (openGraded :: lightened) = tables lightened) ∧
    (answer penaltyAsked lightened = .ok (.penalty 1 true 50) ∧ tables (penaltyAsked :: lightened) = tables lightened) ∧
    (answer gradeStruck lightened = .error .commitFailed ∧ tables (gradeStruck :: lightened) = tables lightened) ∧
    answer resweep lightened = .ok (.regraded 1 1) ∧
      (tables (resweep :: lightened)).submission? 1 ≠ (tables lightened).submission? 1 ∧
      (tables (resweep :: lightened)).submission? 2 = (tables lightened).submission? 2 := by
  have refused : answer openGraded lightened = .ok (.refused .unfinished) := by decide +kernel
  have struck : answer gradeStruck lightened = .error .commitFailed := by decide +kernel
  obtain ⟨form, asked⟩ : ∃ form, gradeStruck.request.call = .ok (.ok (.grade 1 form)) :=
    ⟨⟨.ofInt 80, none⟩, by decide +kernel⟩
  have swept : resweep.request.call = .ok (.ok (.regradeAll 1)) := by decide +kernel
  have fails : Work.commit ⟨{}, [], some 0⟩ = .error .commitFailed ⟨{}, [], none⟩ := rfl
  have outside : ¬∃ row ∈ Evaluation.finishedOf 1 (tables lightened), row.id = 2 := by decide +kernel
  refine ⟨⟨refused, ?_⟩, ⟨by decide +kernel, ?_⟩, ⟨struck, ?_⟩, by decide +kernel, by decide +kernel, ?_⟩
  · exact (writes_confined openGraded lightened).1 _ refused (by decide) (by decide)
  · exact (writes_confined penaltyAsked lightened).2.1 rfl
  · exact ((writes_confined gradeStruck lightened).2.2.2 _ asked).2 _ _ _ fails rfl struck
  · exact ((writes_confined resweep lightened).2.2.2 _ swept).1.submissions 2 outside

end History
end Overdue

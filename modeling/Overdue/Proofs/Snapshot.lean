import Overdue.Proofs.History
import Overdue.Proofs.Payload

/-! Late records as snapshots. After a clean history there is a late record exactly where the policy of the last
evaluation found the finish late, and it holds the finish time and the terms of that policy, whatever was changed since. -/
namespace Overdue

open Failure

variable {tables after : Tables} {calendar : Calendar} {attempts : List Tables} {id : Int}

/-- The late record that a policy makes of a finish time. -/
inductive Agrees (policy : Policy) (finished : Timestamp) (id : Int) : Option LateRecord → Prop
  | onTime (onTime : policy.isLate finished = .ok false) : Agrees policy finished id none
  | late {terms : Terms} (late : policy.isLate finished = .ok true) (frozen : policy.terms = .ok terms) :
    Agrees policy finished id (some ⟨id, finished, terms.stored⟩)

/-- A submission agrees with the policy that judged it; one that is unfinished has no late record. -/
def Snapshot (tables : Tables) (id : Int) (judged : Option Policy) : Prop :=
  ∀ row, tables.submission? id = some row → match row.finishedAt with
    | none => tables.late? id = none
    | some finished => ∃ policy, judged = some policy ∧ Agrees policy finished id (tables.late? id)

/-- A row that stays with its assignment leaves all policies where they are. -/
theorem Tables.policyOf_put {row old : Submission} (saved : tables.putSubmission row = .ok after)
    (found : tables.submission? row.id = some old) (placed : row.assignment = old.assignment) (id : Int) :
    after.policyOf id = tables.policyOf id := by
  unfold policyOf assignment?
  rw [submission?_put saved, (putSubmission_keeps saved).1]
  split
  next own =>
    rw [own, found, Option.bind_some, Option.bind_some, ← placed]
    rfl
  next => rfl

namespace Evaluation

theorem Judged.late?_other {finished : Timestamp} {policy : Policy}
    {result : Except Failure Action} (judged : Judged id finished policy tables attempts result after) {other : Int}
    (apart : other ≠ id) : after.late? other = tables.late? other := by
  cases judged with
  | wide | undecided | noop | unsaved => rfl
  | delete onTime present => rw [Tables.late?_drop, if_neg apart]
  | create late absent instant frozen saved => rw [Tables.late?_put saved, if_neg apart]
  | update late present frozen saved =>
    have own := Table.find?_key present
    rw [Tables.late?_put saved, if_neg (by rw [own]; exact apart)]

theorem Judged.agrees (sound : Sound tables) {row : Submission} {finished : Timestamp} {policy : Policy}
    {action : Action} (judged : Judged id finished policy tables attempts (.ok action) after)
    (found : tables.submission? id = some row) (finishedAt : row.finishedAt = some finished) :
    Agrees policy finished id (after.late? id) := by
  have naive := sound.stored_finish found finishedAt
  cases judged with
  | noop onTime absent => rw [absent]; exact .onTime onTime
  | delete onTime present => rw [Tables.late?_drop, if_pos rfl]; exact .onTime onTime
  | create late absent instant frozen saved =>
    rw [Tables.late?_put saved, if_pos rfl]
    rw [← naive] at instant
    cases instant
    have whole : Agrees policy _ id _ := .late late frozen
    rw [← naive] at whole ⊢
    exact whole
  | update late present frozen saved =>
    obtain ⟨_, other, foundToo, same⟩ := sound.record present
    have own := Table.find?_key present
    cases found.symm.trans foundToo
    cases finishedAt.symm.trans same
    rw [Tables.late?_put saved, if_pos own.symm]
    have whole : Agrees policy _ id _ := .late late frozen
    simpa [LateRecord.stored, naive, own] using whole

/-- What a regrade changes: the score of the one submission, and its late record to agree with the policy. -/
theorem Regraded.effect (sound : Sound tables) {penalty : Int}
    (regraded : Regraded id calendar tables attempts (.ok penalty) after) :
    ∃ row finished assignment score, tables.submission? id = some row ∧ row.finishedAt = some finished ∧
      tables.assignment? row.assignment = some assignment ∧ after.assignments = tables.assignments ∧
      (∀ other, after.submission? other = if other = id then some { row with penalty, score } else tables.submission? other) ∧
      Agrees assignment.policy finished id (after.late? id) ∧ ∀ other ≠ id, after.late? other = tables.late? other := by
  obtain ⟨row, finished, assignment, _, _, middle, score, found, finishedAt, placed, judged, _, _, saved⟩ := regraded.of_ok
  obtain rfl := Table.find?_key found
  have read := Tables.submission?_put saved
  obtain ⟨_, _, rfl⟩ := Tables.putSubmission_eq_ok.mp saved
  refine ⟨row, finished, assignment, score.bind Cell.number, found, finishedAt, placed, judged.assignments, ?_,
    judged.agrees sound found finishedAt, fun other apart => judged.late?_other apart⟩
  intro other
  rw [read, Submission.stored_rescored (sound.submission found), Tables.submission?, judged.submissions]
  rfl

theorem Judged.policyOf {finished : Timestamp} {policy : Policy} {result : Except Failure Action}
    (judged : Judged id finished policy tables attempts result after) (other : Int) :
    after.policyOf other = tables.policyOf other := by
  simp only [Tables.policyOf, Tables.submission?, Tables.assignment?, judged.submissions, judged.assignments]

theorem Regraded.policyOf {penalty : Int} (regraded : Regraded id calendar tables attempts (.ok penalty) after) (other : Int) :
    after.policyOf other = tables.policyOf other := by
  obtain ⟨row, _, _, _, _, middle, _, found, _, _, judged, _, _, saved⟩ := regraded.of_ok
  obtain rfl := Table.find?_key found
  have kept : middle.submission? row.id = some row := by
    rw [Tables.submission?, judged.submissions]
    exact found
  rw [Tables.policyOf_put saved kept rfl, judged.policyOf]

theorem Regraded.sound (sound : Sound tables) {penalty : Int}
    (regraded : Regraded id calendar tables attempts (.ok penalty) after) : Sound after := by
  have visits : Visits (Commit ⟨epoch, calendar⟩ .health) tables attempts after := regraded.visits
  exact sound.commits visits.2

end Evaluation

namespace Snapshot

theorem of_same {judged : Option Policy} (holds : Snapshot tables id judged)
    (same : (after.submission? id).map Submission.finishedAt = (tables.submission? id).map Submission.finishedAt)
    (late : after.late? id = tables.late? id) : Snapshot after id judged := by
  intro kept present
  rw [present, Option.map_some, eq_comm, Option.map_eq_some_iff] at same
  obtain ⟨row, found, finish⟩ := same
  rw [← finish, late]
  exact holds row found

theorem regraded (sound : Sound tables) {penalty : Int} {judged : Int → Option Policy}
    (regraded : Evaluation.Regraded id calendar tables attempts (.ok penalty) after)
    (holds : ∀ other ≠ id, Snapshot tables other (judged other)) (other : Int) :
    Snapshot after other (if other ∈ [id] then tables.policyOf other else judged other) := by
  obtain ⟨row, finished, assignment, score, found, finishedAt, placed, _, read, agrees, unchanged⟩ := regraded.effect sound
  by_cases own : other = id
  · subst own
    intro kept present
    rw [read, if_pos rfl] at present
    cases present
    rw [if_pos (List.mem_singleton_self _)]
    simp only [finishedAt]
    exact ⟨assignment.policy, by simp [Tables.policyOf, found, placed], agrees⟩
  · rw [if_neg (by simpa using own)]
    refine (holds other own).of_same ?_ (unchanged other own)
    rw [read, if_neg own]

theorem reviewed {ids : List Int} {result : Except Failure Unit}
    (reviewed : Evaluation.Reviewed calendar ids tables attempts result after) (sound : Sound tables)
    {judged : Int → Option Policy} (succeeded : result = .ok ()) (holds : ∀ other, Snapshot tables other (judged other))
    (other : Int) : Snapshot after other (if other ∈ ids then tables.policyOf other else judged other) := by
  induction reviewed generalizing judged with
  | nil tables => simpa using holds other
  | failed => cases succeeded
  | @cons id others tables middle after attempts more penalty result regraded rest ih =>
    have first := Snapshot.regraded sound regraded fun other _ => holds other
    have later := ih (regraded.sound sound) succeeded first
    rw [regraded.policyOf] at later
    simp only [List.mem_singleton] at later
    simp only [List.mem_cons]
    by_cases again : other ∈ others
    · simpa [again] using later
    · simpa [again] using later

end Snapshot

/-- The answer to a call makes the snapshots of what it evaluates and keeps all others. -/
theorem Service.Answered.snapshot {context : Context} {call : Call} {reply : Reply} {judged : Int → Option Policy}
    (answered : Answered context tables call attempts (.ok reply) after) (sound : Sound tables)
    (holds : ∀ other, Snapshot tables other (judged other)) (other : Int) :
    Snapshot after other (if other ∈ Service.evaluated tables call reply then tables.policyOf other else judged other) := by
  have still : Snapshot tables other (if other ∈ ([] : List Int) then tables.policyOf other else judged other) := by
    simpa using holds other
  generalize ended : Except.ok reply = result at answered
  cases call with
  | create form =>
    cases answered with
    | unread | unsaved => cases ended
    | saved made saved =>
      obtain ⟨_, _, _, rfl⟩ := Tables.putAssignment_eq_ok.mp saved
      exact still.of_same rfl rfl
  | changePolicy changed change =>
    cases answered with
    | missing | outside => exact still
    | wide | undecided | unread | unsaved => cases ended
    | saved found inside made saved =>
      obtain ⟨_, _, _, rfl⟩ := Tables.putAssignment_eq_ok.mp saved
      exact still.of_same rfl rfl
  | start assignment form =>
    cases answered with
    | missing | closed | barred | reopened => exact still
    | wide | undecided | unsaved => cases ended
    | @saved after admitted allFinished saved =>
      have read := Tables.submission?_put saved
      have same : after.late? other = tables.late? other := by rw [Tables.late?, (Tables.putSubmission_keeps saved).2]; rfl
      by_cases own : other = (Service.opened context assignment form tables).id
      · intro row present
        rw [read, if_pos own] at present
        cases present
        have free : tables.late? other = none := by
          rw [own]
          exact sound.late?_next
        exact same.trans free
      · refine still.of_same ?_ same
        rw [read, if_neg own]
  | finish finished form =>
    cases answered with
    | missing | already => cases ended; exact still
    | wide | unsaved | failed => cases ended
    | @answered row kept penalty middle after attempts found unfinished saved regraded stored =>
      cases ended
      obtain rfl := Table.find?_key found
      have read : ∀ other, middle.submission? other =
          if other = row.id then some (Service.handedIn context form row).stored else tables.submission? other :=
        Tables.submission?_put saved
      obtain ⟨_, lateRecords⟩ := Tables.putSubmission_keeps saved
      have commit : Commit context (.finish row.id form) tables middle := .handIn rfl found unfinished saved
      have others : ∀ other ≠ row.id, Snapshot middle other (judged other) := by
        intro other apart
        refine (holds other).of_same ?_ (by rw [Tables.late?, lateRecords]; rfl)
        rw [read, if_neg apart]
      rw [← Tables.policyOf_put saved found rfl]
      exact Snapshot.regraded (sound.commit commit) regraded others other
  | grade graded form =>
    cases answered with
    | missing | unfinished | outside => exact still
    | wide | unplaced | uncharged | unscored | unsaved => cases ended
    | @saved row assignment penalty score after found finished placed inside charged scored saved =>
      obtain rfl := Table.find?_key found
      have read : ∀ other, after.submission? other = if other = row.id then
          some (Service.marked context form assignment.policy penalty score row).stored else tables.submission? other :=
        Tables.submission?_put saved
      refine still.of_same ?_ (by rw [Tables.late?, (Tables.putSubmission_keeps saved).2]; rfl)
      rw [read]
      split
      next own =>
        have finish : row.stored.finishedAt = row.finishedAt := by rw [sound.submission found]
        rw [own, found]
        exact congrArg some finish
      next => rfl
  | regrade refreshed =>
    cases answered with
    | missing | unfinished => cases ended; exact still
    | wide | failed => cases ended
    | answered found finished regraded stored =>
      cases ended
      exact Snapshot.regraded sound regraded (fun other _ => holds other) other
  | regradeAll swept =>
    cases answered with
    | missing => cases ended; exact still
    | wide => cases ended
    | @reviewed row result after attempts found reviewed =>
      cases result with
      | error failure => cases ended
      | ok done =>
        cases ended
        exact Snapshot.reviewed reviewed sound rfl holds other
  | health | read | list | penalty =>
    obtain ⟨_, _, rfl⟩ := answered
    exact still

theorem Snapshot.of_clean {history : List Event} (clean : History.Clean history) (id : Int) :
    Snapshot (History.tables history) id (History.judgedBy history id) := by
  induction history generalizing id with
  | nil => intro row found; cases found
  | cons event earlier ih =>
    have holds := ih clean.2.2
    rw [History.judgedBy]
    rcases clean.last with ⟨_, none, same⟩ | ⟨call, reply, attempts, _, _, evaluates, answered⟩
    · rw [none, same]
      simpa using holds id
    · rw [evaluates]
      exact answered.snapshot (History.sound earlier) holds id

/-- A snapshot says of the rows what it says of the tables as they are searched. -/
theorem Snapshot.records {row : Submission} {judged : Option Policy} (holds : Snapshot tables row.id judged)
    (sound : Sound tables) (member : row ∈ tables.submissions) :
    ((∃ record ∈ tables.lateRecords, record.submission = row.id) ↔
      ∃ finished policy, row.finishedAt = some finished ∧ judged = some policy ∧ policy.isLate finished = .ok true) ∧
    (∀ finished, row.finishedAt = some finished → ∃ policy late, judged = some policy ∧ policy.isLate finished = .ok late) ∧
    ∀ record ∈ tables.lateRecords, record.submission = row.id →
      ∃ finished policy terms, row.finishedAt = some finished ∧ judged = some policy ∧ policy.terms = .ok terms ∧
        record.finishedAt.utc = finished.utc ∧ record.terms.dueAt.utc = terms.dueAt.utc ∧
        record.terms.applied = terms.applied ∧ record.terms.daily = terms.daily ∧ record.terms.cap = terms.cap := by
  have found := Table.find?_of_mem sound.submissions member
  have recorded : ∀ record ∈ tables.lateRecords, record.submission = row.id → tables.late? row.id = some record :=
    fun record inside own => (Table.find?_eq_some_iff sound.lateRecords).mpr ⟨inside, own⟩
  have holds := holds row found
  cases finishedAt : row.finishedAt with
  | none =>
    rw [finishedAt] at holds
    refine ⟨⟨?_, by simp⟩, by simp, fun record inside own => ?_⟩
    · rintro ⟨record, inside, own⟩
      cases holds.symm.trans (recorded record inside own)
    · cases holds.symm.trans (recorded record inside own)
  | some finished =>
    rw [finishedAt] at holds
    obtain ⟨policy, rfl, agrees⟩ := holds
    generalize kept : tables.late? row.id = entry at agrees
    cases agrees with
    | onTime onTime =>
      refine ⟨⟨?_, ?_⟩, ?_, fun record inside own => ?_⟩
      · rintro ⟨record, inside, own⟩
        cases kept.symm.trans (recorded record inside own)
      · rintro ⟨_, _, same, judged, late⟩
        cases same
        cases judged
        cases onTime.symm.trans late
      · rintro _ same
        cases same
        exact ⟨policy, false, rfl, onTime⟩
      · cases kept.symm.trans (recorded record inside own)
    | @late terms late frozen =>
      refine ⟨⟨fun _ => ⟨finished, policy, rfl, rfl, late⟩, fun _ => ?_⟩, ?_, fun record inside own => ?_⟩
      · exact ⟨_, Table.mem_of_find? kept, rfl⟩
      · rintro _ same
        cases same
        exact ⟨policy, true, rfl, late⟩
      · cases kept.symm.trans (recorded record inside own)
        obtain ⟨due, _, _, _, dueAt, converted, _⟩ := Policy.isLate_eq_true late
        rw [Policy.terms_of_due dueAt converted] at frozen
        cases frozen
        refine ⟨finished, policy, _, rfl, rfl, Policy.terms_of_due dueAt converted, rfl, ?_, rfl, rfl, rfl⟩
        rw [Timestamp.utc_ofUtc]
        rfl

theorem Commit.finish_kept {context : Context} {call : Call} (commit : Commit context call tables after)
    (sound : Sound tables) {row : Submission} {finished : Timestamp} (found : tables.submission? id = some row)
    (finishedAt : row.finishedAt = some finished) :
    ∃ kept, after.submission? id = some kept ∧ kept.finishedAt = some finished := by
  rcases commit.writes sound with ⟨_, saved⟩ | ⟨new, saved, _, keeps⟩ | ⟨_, _, _, _, _, _, judged, _, _⟩
  · obtain ⟨_, _, _, rfl⟩ := Tables.putAssignment_eq_ok.mp saved
    exact ⟨row, found, finishedAt⟩
  · rw [Tables.submission?_put saved]
    split
    next own =>
      subst own
      refine ⟨new.stored, rfl, ?_⟩
      rw [Submission.stored, keeps row finished found finishedAt, Option.map_some, sound.stored_finish found finishedAt]
    next => exact ⟨row, found, finishedAt⟩
  · rw [Tables.submission?, judged.submissions]
    exact ⟨row, found, finishedAt⟩

theorem History.finish_kept (event : Event) (history : List Event) {row : Submission} {finished : Timestamp}
    (found : (History.tables history).submission? id = some row) (finishedAt : row.finishedAt = some finished) :
    ∃ kept, (History.tables (event :: history)).submission? id = some kept ∧ kept.finishedAt = some finished := by
  apply carried_sound fun reached => ∃ kept, reached.submission? id = some kept ∧ kept.finishedAt = some finished
  · exact ⟨row, found, finishedAt⟩
  · rintro call before after _ commit sound ⟨kept, present, same⟩
    exact commit.finish_kept sound present same

theorem Service.changePolicy_lateRecords (context : Context) (fault : Option Nat) (id : Int) (change : PolicyChange)
    (tables : Tables) : (answer context fault (.changePolicy id change) tables).2.lateRecords = tables.lateRecords := by
  obtain ⟨attempts, result, after, runs, answered⟩ := perform_yields context (.changePolicy id change) tables
  have kept : after.lateRecords = tables.lateRecords ∧ ∀ left ∈ attempts, left = tables := by
    cases answered with
    | saved found inside made saved =>
      obtain ⟨_, _, _, rfl⟩ := Tables.putAssignment_eq_ok.mp saved
      exact ⟨rfl, by simp⟩
    | unsaved => exact ⟨rfl, by simp⟩
    | _ => exact ⟨rfl, by simp⟩
  rcases answer_cases runs fault with same | ⟨left, attempted, same⟩
  · rw [same]
    exact kept.1
  · rw [same, kept.2 left attempted]

theorem History.patch_lateRecords {event : Event} {place : String} (method : event.request.method = .patch)
    (path : Place.ofSegments? event.request.path = some (.policy place)) (history : List Event) :
    (History.tables (event :: history)).lateRecords = (History.tables history).lateRecords := by
  rw [History.tables, Service.serve]
  split
  · rfl
  · rfl
  next call asked =>
    simp only [Request.call, path, method, Call.ofPlace, Except.ok.injEq] at asked
    obtain ⟨id, change, _, _, rfl⟩ := Call.ofChecked_eq_ok asked
    exact Service.changePolicy_lateRecords event.context event.faultAfter id change _

/-- The due instant that a call sends: it may send none, and what it sends may be null. -/
def Call.sentDue : Call → Option (Option Timestamp)
  | .create form => some form.policy.dueAt
  | .changePolicy _ change => change.dueAt
  | _ => none

def Reply.shownAssignment : Reply → Option Assignment
  | .created view | .assignment view => some view.row
  | _ => none

/-- The due instant that is stored is the one that was sent, with whatever offset. -/
theorem Service.Answered.due {context : Context} {call : Call} {reply : Reply} {due : Option Timestamp} {row : Assignment}
    (answered : Answered context tables call attempts (.ok reply) after) (sent : call.sentDue = some due)
    (shown : reply.shownAssignment = some row) :
    after.assignment? row.id = some row ∧ row.policy.dueAt.map Timestamp.utc = due.map Timestamp.utc := by
  generalize ended : Except.ok reply = result at answered
  cases call with
  | create form =>
    cases sent
    cases answered with
    | unread | unsaved => cases ended
    | @saved made kept after newly saved keeps =>
      obtain ⟨view, viewed, rfl⟩ := map_eq_ok.mp ended.symm
      obtain ⟨notes, _, rfl⟩ := map_eq_ok.mp viewed
      cases shown
      obtain ⟨other, same, fits, found⟩ := Tables.putAssignment_found saved
      cases keeps.symm.trans same
      obtain ⟨_, _, rfl⟩ := Assignment.stored?_eq_some.mp keeps
      have kept := inUtc?_stored (newAssignment_columns newly).2.2.1
      exact ⟨found, kept⟩
  | changePolicy id change =>
    cases answered with
    | missing | outside => cases ended; cases shown
    | wide | undecided | unread | unsaved => cases ended
    | @saved old kept policy after found inside made saved keeps =>
      obtain ⟨view, viewed, rfl⟩ := map_eq_ok.mp ended.symm
      obtain ⟨notes, _, rfl⟩ := map_eq_ok.mp viewed
      cases shown
      obtain ⟨other, same, fits, present⟩ := Tables.putAssignment_found saved
      cases keeps.symm.trans same
      obtain ⟨_, _, rfl⟩ := Assignment.stored?_eq_some.mp keeps
      obtain ⟨dues, _⟩ := changed_eq_ok.mp made
      have dueSent : change.dueAt = some due := sent
      rw [dueAfter, dueSent] at dues
      exact ⟨present, inUtc?_stored dues⟩
  | _ => cases sent

namespace History

/-- After every clean history a submission has a late record exactly if the policy of its last evaluation finds it late,
and the record holds its finish time and the terms of that policy. Finish times that are set stay, changes of policies
leave the late records alone, and due instants are kept as they were sent. -/
theorem clean_snapshot {history : List Event} (clean : Clean history) :
    (∀ row ∈ (History.tables history).submissions,
      ((∃ record ∈ (History.tables history).lateRecords, record.submission = row.id) ↔
        ∃ finished policy, row.finishedAt = some finished ∧ judgedBy history row.id = some policy ∧
          policy.isLate finished = .ok true) ∧
      (∀ finished, row.finishedAt = some finished →
        ∃ policy late, judgedBy history row.id = some policy ∧ policy.isLate finished = .ok late) ∧
      ∀ record ∈ (History.tables history).lateRecords, record.submission = row.id →
        ∃ finished policy terms, row.finishedAt = some finished ∧ judgedBy history row.id = some policy ∧
          policy.terms = .ok terms ∧ record.finishedAt.utc = finished.utc ∧ record.terms.dueAt.utc = terms.dueAt.utc ∧
          record.terms.applied = terms.applied ∧ record.terms.daily = terms.daily ∧ record.terms.cap = terms.cap) ∧
    (∀ event, ∀ row ∈ (History.tables history).submissions, ∀ finished, row.finishedAt = some finished →
      ∃ kept ∈ (History.tables (event :: history)).submissions, kept.id = row.id ∧ kept.finishedAt = some finished) ∧
    (∀ event place, event.request.method = .patch → Place.ofSegments? event.request.path = some (.policy place) →
      (History.tables (event :: history)).lateRecords = (History.tables history).lateRecords) ∧
    ∀ event call due reply row, Clean (event :: history) → event.request.call = .ok (.ok call) → call.sentDue = some due →
      answer event history = .ok reply → reply.shownAssignment = some row →
      row ∈ (History.tables (event :: history)).assignments ∧ row.policy.dueAt.map Timestamp.utc = due.map Timestamp.utc := by
  have sound := sound history
  refine ⟨fun row member => ?_, fun event row member finished finishedAt => ?_, fun event place method path => ?_,
    fun event call due reply row clean asked sent replied shown => ?_⟩
  · exact (Snapshot.of_clean clean row.id).records sound member
  · have found := Table.find?_of_mem sound.submissions member
    obtain ⟨kept, present, same⟩ := finish_kept event history found finishedAt
    exact ⟨kept, Table.mem_of_find? present, Table.find?_key present, same⟩
  · exact patch_lateRecords method path history
  · rcases clean.last with ⟨⟨refusal, other⟩, _⟩ | ⟨other, otherReply, attempts, same, repliedToo, _, answered⟩
    · cases asked.symm.trans other
    · cases asked.symm.trans same
      cases replied.symm.trans repliedToo
      obtain ⟨found, due⟩ := answered.due sent shown
      exact ⟨Table.mem_of_find? found, due⟩

/-- An attempt is finished late for a due instant that is sent with an offset and is taken back afterwards. -/
def takenBack : List Event := [
  .plain 63845100000000000 .patch ["assignments", "1", "late-policy"] [("due_at", .null)],
  .plain 63845000000000000 .post ["submissions", "1", "finish"] [],
  .plain 63840000000000000 .post ["assignments", "1", "submissions"] [("student_id", .int 7)],
  .plain 63830000000000000 .post ["assignments"]
    [("title", .str "Essay"), ("due_at", .str "2024-03-01T12:00:00+02:00")]]

theorem clean_snapshot_takenBack : Clean takenBack ∧ ∀ row ∈ (History.tables takenBack).submissions,
    ∃ record ∈ (History.tables takenBack).lateRecords, record.submission = row.id := by
  have clean : Clean takenBack := by decide +kernel
  refine ⟨clean, fun row member => ?_⟩
  have judged : ∀ row ∈ (History.tables takenBack).submissions,
      row.finishedAt = some ⟨⟨63845000000000000, by decide⟩, none⟩ ∧
      judgedBy takenBack row.id = some ⟨some ⟨⟨63844884000000000, by decide⟩, none⟩, true, 5, 50, true⟩ := by decide +kernel
  obtain ⟨finishedAt, policy⟩ := judged row member
  exact ((clean_snapshot clean).1 row member).1.mpr ⟨_, _, finishedAt, policy, rfl⟩

end History
end Overdue

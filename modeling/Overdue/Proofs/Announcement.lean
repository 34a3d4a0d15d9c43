import Overdue.Proofs.GradeNote

/-! What the notes of a policy tell: whether the due instant is past, and what a late submission loses. Both can be read off
the texts, so that the notes of a policy tell one thing only. -/
namespace Overdue
namespace Notes

open Failure

/-- What a late submission loses by a note: nothing, or so many percent for each working day, up to a cap where one is named. -/
inductive Announcement where
  | free
  | charged (daily : Int) (cap : Option Int)
deriving DecidableEq

namespace Announcement

def ending : Option Int → String
  | none => "."
  | some cap => ", up to " ++ percent cap ++ "."

def text : Announcement → String
  | free => "Late submissions are accepted without penalty."
  | charged daily cap => "Late submissions lose " ++ (percent daily ++ (" per working day after the due date" ++ ending cap))

theorem ending_injective : Function.Injective ending := by
  have stops (cap : Int) : ending none ≠ ending (some cap) := by
    intro same
    have lists := congrArg String.toList same
    simp [ending] at lists
  intro cap other same
  cases cap with
  | none =>
    cases other with
    | none => rfl
    | some other => exact absurd same (stops other)
  | some cap =>
    cases other with
    | none => exact absurd same.symm (stops cap)
    | some other =>
      simp only [ending, String.append_assoc] at same
      rw [(percent_inj ((String.append_right_inj _).mp same)).1]

theorem free_ne_charged (daily : Int) (cap : Option Int) : text free ≠ text (charged daily cap) := by
  intro same
  have lists : "Late submissions are accepted without penalty.".toList = ("Late submissions lose " ++ _).toList :=
    congrArg String.toList same
  simp at lists

theorem text_injective : Function.Injective text := by
  intro told other same
  cases told with
  | free =>
    cases other with
    | free => rfl
    | charged daily cap => exact absurd same (free_ne_charged daily cap)
  | charged daily cap =>
    cases other with
    | free => exact absurd same.symm (free_ne_charged daily cap)
    | charged dailyToo capToo =>
      obtain ⟨dailies, rest⟩ := percent_inj ((String.append_right_inj _).mp same)
      rw [dailies, ending_injective ((String.append_right_inj _).mp rest)]

/-- Every announcement is about late submissions. -/
theorem text_starts (announcement : Announcement) : ∃ rest, announcement.text = "Late submissions " ++ rest := by
  cases announcement with
  | free => exact ⟨"are accepted without penalty.", rfl⟩
  | charged daily cap =>
    refine ⟨"lose " ++ (percent daily ++ (" per working day after the due date" ++ ending cap)), ?_⟩
    rw [← String.append_assoc]
    rfl

end Announcement

/-- What the note of a policy announces: a cap of the whole score is not named. -/
def announced (policy : Policy) : Announcement :=
  if !policy.applied || policy.daily = 0 then .free
  else .charged policy.daily (if normalizeCap policy.cap < fullPercentage then some (normalizeCap policy.cap) else none)

theorem penaltyNote_eq (policy : Policy) : penaltyNote policy = (announced policy).text := by
  unfold penaltyNote announced
  split
  next => rfl
  next =>
    split
    next capped =>
      simp only [String.append_assoc]
      rfl
    next uncapped =>
      simp only [String.append_assoc, String.empty_append]
      rfl

/-- The notes tell that the due instant is past. -/
def TellsPast (notes : List String) : Prop := ∃ date, "This assignment has been due since " ++ date ∈ notes

variable {policy : Policy} {due : Reading} {now : Timestamp} {notes : List String}

theorem dueNote_ne_text (due : Reading) (past : Bool) (announcement : Announcement) : dueNote due past ≠ announcement.text := by
  obtain ⟨rest, starts⟩ := announcement.text_starts
  intro same
  have lists := congrArg String.toList (same.trans starts)
  cases past <;> simp [dueNote] at lists

theorem tellsPast_iff (due : Reading) (past : Bool) (announcement : Announcement) :
    TellsPast [dueNote due past, announcement.text] ↔ past = true := by
  constructor
  · rintro ⟨date, inside⟩
    rcases List.mem_pair.mp inside with same | same
    · cases past with
      | true => rfl
      | false =>
        have lists := congrArg String.toList same
        simp [dueNote] at lists
    · obtain ⟨rest, starts⟩ := announcement.text_starts
      have lists := congrArg String.toList (same.trans starts)
      simp at lists
  · rintro rfl
    have told : dueNote due true = "This assignment has been due since " ++ (due.longText ++ " UTC.") := String.append_assoc
    exact ⟨due.longText ++ " UTC.", by rw [← told]; exact List.mem_cons_self⟩

theorem text_mem_iff (due : Reading) (past : Bool) (told announcement : Announcement) :
    told.text ∈ [dueNote due past, announcement.text] ↔ told = announcement := by
  rw [List.mem_pair, Announcement.text_injective.eq_iff]
  exact or_iff_right (dueNote_ne_text due past told).symm

theorem describe_eq_ok (active : policy.due? = .ok (some due)) : describe policy now = .ok notes ↔
    ∃ utc limit, now.utc = .ok utc ∧ due.shift graceMicros = .ok limit ∧
      [dueNote due (limit.le utc), (announced policy).text] = notes := by
  rw [describe, bind_of_ok active, ← penaltyNote_eq]
  constructor
  · intro described
    obtain ⟨utc, nowUtc, described⟩ := bind_eq_ok.mp described
    obtain ⟨limit, shifted, described⟩ := bind_eq_ok.mp described
    exact ⟨utc, limit, nowUtc, shifted, Except.ok.inj described⟩
  · rintro ⟨utc, limit, nowUtc, shifted, rfl⟩
    exact bind_eq_ok.mpr ⟨utc, nowUtc, bind_eq_ok.mpr ⟨limit, shifted, rfl⟩⟩

end Notes
end Overdue

import Mathlib.Data.List.Basic
import Mathlib.Data.List.DropRight
import Overdue.Text.Blank
import Overdue.Text.Digit

/-! What trimming, padding and cutting do to a text, and how numbers are read off theirs. -/
namespace Overdue
namespace Text

/-- Where a text is cut at the first of a character, it is cut in one way. -/
theorem cut_inj {c : Char} {front back more others : List Char} (free : c ∉ front) (freeToo : c ∉ more)
    (same : front ++ c :: back = more ++ c :: others) : front = more ∧ back = others := by
  have first {list : List Char} (free : c ∉ list) (rest : List Char) :
      (list ++ c :: rest).splitOnP (· = c) = list :: rest.splitOnP (· = c) := by
    have apart : ∀ a ∈ list, decide (a = c) = false := fun a inside => decide_eq_false (ne_of_mem_of_not_mem inside free)
    exact List.splitOnP_append_cons_of_forall_mem apart c (decide_eq_true rfl) rest
  have pieces := congrArg (List.splitOnP (· = c)) same
  rw [first free, first freeToo, List.cons.injEq] at pieces
  obtain ⟨rfl, _⟩ := pieces
  exact ⟨rfl, (List.cons.inj (List.append_cancel_left same)).2⟩

section Trim

variable {dropped : Char → Bool} {text : List Char}

theorem trim_front {front : List Char} (blank : ∀ c ∈ front, dropped c = true) : trim dropped (front ++ text) = trim dropped text := by
  rw [trim, List.dropWhile_append_of_pos blank]
  rfl

theorem trim_back {back : List Char} (blank : ∀ c ∈ back, dropped c = true) : trim dropped (text ++ back) = trim dropped text := by
  have none : back.dropWhile dropped = [] := List.dropWhile_eq_nil_iff.mpr blank
  rw [trim, trim, List.dropWhile_append]
  split
  next empty => rw [none, List.isEmpty_iff.mp empty]
  next => rw [List.reverse_append, List.dropWhile_append_of_pos (by simpa using blank)]

theorem trim_of_none (kept : ∀ c ∈ text, dropped c = false) : trim dropped text = text := by
  have self {list : List Char} (kept : ∀ c ∈ list, dropped c = false) : list.dropWhile dropped = list :=
    List.dropWhile_eq_self_iff.mpr fun _ => by simp [kept _ (List.getElem_mem _)]
  rw [trim, self kept, self (by simpa using kept), List.reverse_reverse]

theorem head?_trim {c : Char} (first : (trim dropped text).head? = some c) : dropped c = false := by
  have front := List.head?_dropWhile_not dropped text
  obtain ⟨rest, whole⟩ : trim dropped text <+: text.dropWhile dropped := List.rdropWhile_prefix dropped _
  rw [← whole, List.head?_append, first] at front
  exact front

end Trim

section Padded

variable {n : Nat}

theorem padded_one (small : n ≤ 9) : padded 1 n = [n.digitChar] := by
  rw [padded, Nat.toDigits_of_lt_base (by omega)]
  rfl

theorem padded_succ {width : Nat} (some : 0 < width) (n : Nat) :
    padded (width + 1) n = padded width (n / 10) ++ [(n % 10).digitChar] := by
  unfold padded
  rw [Nat.toDigits_eq_if (by omega)]
  split
  next small =>
    obtain ⟨less, rfl⟩ := Nat.exists_eq_succ_of_ne_zero some.ne'
    have zero : Nat.toDigits 10 0 = ['0'] := rfl
    rw [Nat.div_eq_of_lt small, Nat.mod_eq_of_lt small, zero]
    simp [List.replicate_succ']
  next => simp

theorem padded_wide (wide : 10 ≤ n) : padded 1 n = padded 2 n := by
  have long : 2 ≤ (Nat.toDigits 10 n).length := by
    rw [Nat.toDigits_eq_if (by omega), if_neg (by omega)]
    have some : (Nat.toDigits 10 (n / 10)).length ≠ 0 := by
      rw [Nat.toDigits_eq_if (by omega)]
      split <;> simp
    simp
    omega
  have none (width : Nat) (short : width ≤ 2) : padded width n = Nat.toDigits 10 n := by
    simp [padded, Nat.sub_eq_zero_of_le (short.trans long)]
  rw [none 1 (by omega), none 2 le_rfl]

theorem isDigit_of_mem_padded {width : Nat} {c : Char} (inside : c ∈ padded width n) : c.isDigit = true := by
  rcases List.mem_append.mp inside with zero | digit
  · rw [List.eq_of_mem_replicate zero]
    rfl
  · exact Nat.isDigit_of_mem_toDigits (by omega) (by omega) digit

end Padded

section Repr

theorem isDigit_of_mem_repr {n : Nat} {c : Char} (inside : c ∈ n.repr.toList) : c.isDigit = true := by
  rw [Nat.toList_repr] at inside
  exact Nat.isDigit_of_mem_toDigits (by omega) (by omega) inside

theorem natRepr_injective : Function.Injective Nat.repr := by
  intro m n same
  have digits := congrArg String.toList same
  rw [Nat.toList_repr, Nat.toList_repr] at digits
  calc m = Nat.ofDigitChars 10 (Nat.toDigits 10 m) 0 := Nat.ofDigitChars_ten_toDigits.symm
    _ = n := by rw [digits, Nat.ofDigitChars_ten_toDigits]

/-- A whole number is told by its text: only a negative one starts with a sign. -/
theorem repr_injective : Function.Injective Int.repr := by
  have signed (m n : Nat) : m.repr ≠ "-" ++ n.repr := by
    intro same
    have sign : '-' ∈ m.repr.toList := by simp [same]
    simpa using isDigit_of_mem_repr sign
  intro m n same
  rw [Int.repr_eq_if, Int.repr_eq_if] at same
  split at same
  next =>
    split at same
    next =>
      have sizes := natRepr_injective same
      omega
    next => exact absurd same (signed _ _)
  next =>
    split at same
    next => exact absurd same.symm (signed _ _)
    next =>
      have sizes := natRepr_injective ((String.append_right_inj "-").mp same)
      omega

end Repr

end Text
end Overdue

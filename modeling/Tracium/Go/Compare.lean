import Tracium.Go.Bytes

/-! Go's `<` on strings: bytewise, and a string before its continuations. -/
namespace Go

def less : Str → Str → Bool
  | [], [] => false
  | [], _ :: _ => true
  | _ :: _, [] => false
  | a :: s, b :: t => a < b || (a == b && less s t)

theorem less_irrefl (s : Str) : less s s = false := by
  induction s with
  | nil => rfl
  | cons a s ih => simp [less, ih]

theorem less_trichotomy (s t : Str) : less s t = true ∨ s = t ∨ less t s = true := by
  induction s generalizing t with
  | nil =>
    cases t with
    | nil => exact .inr (.inl rfl)
    | cons b t => exact .inl rfl
  | cons a s ih =>
    cases t with
    | nil => exact .inr (.inr rfl)
    | cons b t =>
      by_cases same : a = b
      · subst same
        rcases ih t with before | rfl | after
        · exact .inl (by simp [less, before])
        · exact .inr (.inl rfl)
        · exact .inr (.inr (by simp [less, after]))
      · rcases UInt8.lt_or_lt_of_ne same with before | after
        · exact .inl (by simp [less, before])
        · exact .inr (.inr (by simp [less, after]))

theorem less_trans {s t u : Str} (first : less s t = true) (second : less t u = true) : less s u = true := by
  induction s generalizing t u with
  | nil =>
    cases u with
    | nil => cases t <;> cases second
    | cons c u => rfl
  | cons a s ih =>
    cases t with
    | nil => cases first
    | cons b t =>
      cases u with
      | nil => cases second
      | cons c u =>
        simp only [less, Bool.or_eq_true, decide_eq_true_eq, Bool.and_eq_true, beq_iff_eq] at first second ⊢
        rcases first with ab | ⟨rfl, st⟩ <;> rcases second with bc | ⟨rfl, tu⟩
        · exact .inl (UInt8.lt_trans ab bc)
        · exact .inl ab
        · exact .inl bc
        · exact .inr ⟨rfl, ih st tu⟩

end Go

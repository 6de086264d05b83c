import Mathlib.Algebra.Order.Ring.Int
import Mathlib.Data.List.Basic

/-! Loops that thread a state through the elements of a container, rewriting each of
them, and what such a loop leaves behind. -/
namespace Tracium.Traverse

variable {S α β γ : Type}

/-- A loop over a container; `body` returns the state and what it makes of the element. -/
def loop (body : S → α → S × β) : S → List α → S × List β
  | s, [] => (s, [])
  | s, a :: rest =>
    let after := body s a
    let last := loop body after.1 rest
    (last.1, after.2 :: last.2)

/-- A loop that removes the elements of which the body leaves nothing. -/
def removeIf (body : S → α → S × Option β) (s : S) (elements : List α) : S × List β :=
  let last := loop body s elements
  (last.1, last.2.filterMap id)

/-- A body that does not read the state, and changes it only by effects that compose. -/
theorem loop_effects {ε : Type} {act : S → List ε → S} {body : S → α → S × β}
    {f : α → β × List ε} (act_nil : ∀ s, act s [] = s)
    (act_append : ∀ s es es', act s (es ++ es') = act (act s es) es')
    (body_eq : ∀ s a, body s a = (act s (f a).2, (f a).1)) (s : S) (elements : List α) :
    loop body s elements =
      (act s ((elements.map f).flatMap Prod.snd), (elements.map f).map Prod.fst) := by
  induction elements generalizing s with
  | nil => simp [loop, act_nil]
  | cons a rest ih => simp [loop, body_eq, ih, act_append]

/-- The elements were handled one after the other, each with its outcome, on the way
from one state to another. -/
inductive Through (R : S → α → β → S → Prop) : S → List α → List β → S → Prop where
  | nil (s : S) : Through R s [] [] s
  | cons {s s' s'' : S} {a : α} {b : β} {rest : List α} {later : List β}
      (first : R s a b s') (then_ : Through R s' rest later s'') :
      Through R s (a :: rest) (b :: later) s''

/-- What is known of every single step of a loop is known along the loop; `shadow` is
the part of an outcome that the body returns. -/
theorem loop_through {R : S → α → γ → S → Prop} {body : S → α → S × β} (shadow : γ → β)
    (step : ∀ s a, ∃ c, R s a c (body s a).1 ∧ shadow c = (body s a).2) (s : S)
    (elements : List α) :
    ∃ outcomes, Through R s elements outcomes (loop body s elements).1 ∧
      outcomes.map shadow = (loop body s elements).2 := by
  induction elements generalizing s with
  | nil => exact ⟨[], .nil s, rfl⟩
  | cons a rest ih =>
    obtain ⟨c, first, shown⟩ := step s a
    obtain ⟨later, through, shownLater⟩ := ih (body s a).1
    refine ⟨c :: later, .cons first through, ?_⟩
    simp only [List.map_cons, shown, shownLater, loop]

theorem Through.length_eq {R : S → α → β → S → Prop} {s s' : S} {elements : List α}
    {outcomes : List β} (through : Through R s elements outcomes s') :
    outcomes.length = elements.length := by
  induction through with
  | nil => rfl
  | cons _ _ ih => simp only [List.length_cons, ih]

/-- What every step relates, the loop relates position by position. -/
theorem Through.forall₂ {R : S → α → β → S → Prop} {Q : α → β → Prop}
    (related : ∀ s a b s', R s a b s' → Q a b) {s s' : S} {elements : List α}
    {outcomes : List β} (through : Through R s elements outcomes s') :
    List.Forall₂ Q elements outcomes := by
  induction through with
  | nil => exact .nil
  | cons first _ ih => exact .cons (related _ _ _ _ first) ih

/-- A log to which every step appends what its outcome says. -/
theorem Through.log_eq {R : S → α → β → S → Prop} (log : S → List γ) (emit : β → List γ)
    (appends : ∀ s a b s', R s a b s' → log s' = log s ++ emit b) {s s' : S} {elements : List α}
    {outcomes : List β} (through : Through R s elements outcomes s') :
    log s' = log s ++ outcomes.flatMap emit := by
  induction through with
  | nil => simp
  | cons first _ ih =>
    rw [ih, appends _ _ _ _ first, List.flatMap_cons, List.append_assoc]

/-- A measure of the elements that every step carries over to its outcome. -/
theorem Through.sum_eq {R : S → α → β → S → Prop} (size : α → Nat) (weight : β → Nat)
    (same : ∀ s a b s', R s a b s' → weight b = size a) {s s' : S} {elements : List α}
    {outcomes : List β} (through : Through R s elements outcomes s') :
    (outcomes.map weight).sum = (elements.map size).sum := by
  induction through with
  | nil => rfl
  | cons first _ ih =>
    simp only [List.map_cons, List.sum_cons, ih, same _ _ _ _ first]

/-- What a loop keeps stands in the order of the elements it was made from. -/
theorem Through.kept_sublist {R : S → α → β → S → Prop} {δ ε : Type} (kept : β → Option δ)
    (face : α → ε) (faceKept : δ → ε)
    (same : ∀ s a b s' d, R s a b s' → kept b = some d → faceKept d = face a) {s s' : S}
    {elements : List α} {outcomes : List β} (through : Through R s elements outcomes s') :
    ((outcomes.filterMap kept).map faceKept).Sublist (elements.map face) := by
  induction through with
  | nil => exact List.Sublist.slnil
  | @cons s s' s'' a b rest later first _ ih =>
    cases found : kept b with
    | none =>
      rw [List.filterMap_cons_none found]
      exact ih.cons _
    | some d =>
      rw [List.filterMap_cons_some found]
      simpa only [List.map_cons, same _ _ _ _ _ first found] using ih.cons_cons (face a)

end Tracium.Traverse

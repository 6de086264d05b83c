import Mathlib.Data.List.Basic

/-! Commands that change a state and may stop with an error, keeping what they did
before it. -/
namespace Tracium.Fallible

variable {S E α : Type}

abbrev Command (S E : Type) := S → S × Option E

def skip : Command S E := fun s => (s, none)

def fail (err : E) : Command S E := fun s => (s, some err)

def andThen (first second : Command S E) : Command S E := fun s =>
  match first s with
  | (s', none) => second s'
  | (s', some err) => (s', some err)

/-- The same command with its error wrapped. -/
def mapError (wrap : E → E) (c : Command S E) : Command S E := fun s => ((c s).1, (c s).2.map wrap)

/-- A loop that the first error ends. -/
def forEach (body : α → Command S E) : List α → Command S E
  | [] => skip
  | a :: rest => andThen (body a) (forEach body rest)

theorem mapError_ok {wrap : E → E} {c : Command S E} {s : S} (ok : (mapError wrap c s).2 = none) :
    (c s).2 = none := Option.map_eq_none_iff.mp ok

theorem andThen_ok {first second : Command S E} {s : S} (ok : (andThen first second s).2 = none) :
    (first s).2 = none ∧ (second (first s).1).2 = none ∧
      (andThen first second s).1 = (second (first s).1).1 := by
  rcases ran : first s with ⟨s', _ | err⟩
  · simp only [andThen, ran] at ok
    exact ⟨rfl, ok, by simp only [andThen, ran]⟩
  · simp [andThen, ran] at ok

section Kept

variable {R : S → S → Prop} (trans : ∀ a b c, R a b → R b c → R a c)

include trans

/-- A transitive relation both parts keep, whether they fail or not. -/
theorem andThen_kept {first second : Command S E} (firstKept : ∀ s, R s (first s).1)
    (secondKept : ∀ s, R s (second s).1) (s : S) : R s (andThen first second s).1 := by
  have before := firstKept s
  rcases ran : first s with ⟨s', _ | err⟩
  · simp only [andThen, ran] at before ⊢
    exact trans _ _ _ before (secondKept s')
  · simpa only [andThen, ran] using before

theorem forEach_kept (refl : ∀ s, R s s) {body : α → Command S E} {elements : List α}
    (kept : ∀ a ∈ elements, ∀ s, R s (body a s).1) (s : S) : R s (forEach body elements s).1 := by
  induction elements generalizing s with
  | nil => exact refl s
  | cons a rest ih =>
    have later := ih fun b member => kept b (List.mem_cons_of_mem a member)
    exact andThen_kept trans (kept a List.mem_cons_self) later s

end Kept

/-- What a successful step establishes and every step keeps holds after a successful
loop over the elements. -/
theorem forEach_ok {body : α → Command S E} {Q : α → S → Prop}
    (established : ∀ a s, (body a s).2 = none → Q a (body a s).1)
    (stable : ∀ a b s, Q a s → (body b s).2 = none → Q a (body b s).1)
    {elements : List α} {s : S} (ok : (forEach body elements s).2 = none) :
    ∀ a ∈ elements, Q a (forEach body elements s).1 := by
  have carried : ∀ (elements : List α) (s : S) (a : α), Q a s →
      (forEach body elements s).2 = none → Q a (forEach body elements s).1 := by
    intro elements
    induction elements with
    | nil => exact fun s a holds _ => holds
    | cons b rest ih =>
      intro s a holds ok
      obtain ⟨first, later, last⟩ := andThen_ok ok
      rw [forEach, last]
      exact ih _ a (stable a b s holds first) later
  induction elements generalizing s with
  | nil => exact fun a member => nomatch member
  | cons b rest ih =>
    obtain ⟨first, later, last⟩ := andThen_ok ok
    intro a member
    rw [forEach, last]
    rcases List.mem_cons.mp member with rfl | inRest
    · exact carried rest _ a (established a s first) later
    · exact ih later a inRest

end Tracium.Fallible

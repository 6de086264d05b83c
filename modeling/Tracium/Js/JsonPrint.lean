import Tracium.Js.JsonString

/-! What JSON.stringify prints, as tokens: whatever the indentation, they are the tokens of
one syntax tree of the value. -/
namespace Js.Json

/-! Words. -/

theorem isWordUnit_of_number {u : UInt16} (unit : NumberUnit u) : isWordUnit u = true := by
  rcases unit with digits | rfl | rfl | rfl | rfl
  · obtain ⟨low, high⟩ := (isDigit_iff u).mp digits
    have shape : u = digit (u.toNat - 0x30) := by
      apply UInt16.toNat_inj.mp
      rw [digit_toNat (by omega)]
      omega
    have all : ∀ n < 10, isWordUnit (digit n) = true := by decide
    rw [shape]
    exact all _ (by omega)
  · rfl
  · rfl
  · rfl
  · rfl

/-- A text that is one token. -/
def IsWord (raw : Text) : Prop := raw ≠ [] ∧ ∀ u ∈ raw, isWordUnit u = true

theorem isWord_null : IsWord (lit "null") := ⟨by simp [lit], List.all_eq_true.mp rfl⟩

theorem isWord_true : IsWord (lit "true") := ⟨by simp [lit], List.all_eq_true.mp rfl⟩

theorem isWord_false : IsWord (lit "false") := ⟨by simp [lit], List.all_eq_true.mp rfl⟩

theorem isWord_numberText (n : Number) : IsWord (numberText n) := by
  cases n with
  | finite x =>
    obtain ⟨units, nonempty⟩ := numberToString_spec x
    exact ⟨nonempty, fun u member => isWordUnit_of_number (units u member)⟩
  | infinite => exact isWord_null

/-- A scalar is printed as a word or as a string literal. -/
theorem literal_cases (s : Scalar) :
    (∃ raw, s.literal = .word raw ∧ IsWord raw) ∨ ∃ t, s.literal = .string (quoteBody t) := by
  cases s with
  | null => exact Or.inl ⟨_, rfl, isWord_null⟩
  | bool b =>
    cases b with
    | true => exact Or.inl ⟨_, rfl, isWord_true⟩
    | false => exact Or.inl ⟨_, rfl, isWord_false⟩
  | number n => exact Or.inl ⟨_, rfl, isWord_numberText n⟩
  | string t => exact Or.inr ⟨t, rfl⟩

/-! The tokens of what is printed. -/

/-- The tokens of a text, whatever delimiter follows. -/
def Lexes (text : Text) (ts : List Token) : Prop :=
  ∀ rest, Delimited rest → lexFrom .between (text ++ rest) = ts ++ lexFrom .between rest

theorem lexes_string {body : Text} (inside : Inside body) : Lexes (quoteUnit :: (body ++ [quoteUnit])) [.string body] := by
  intro rest _
  rw [List.cons_append, List.append_assoc]
  exact lexFrom_string inside rest

theorem lexes_literal (s : Scalar) : Lexes s.literal.text [s.literal.token] := by
  rcases literal_cases s with ⟨raw, shape, nonempty, word⟩ | ⟨t, shape⟩
  · rw [shape]
    intro rest delimited
    exact lexFrom_word nonempty word delimited
  · rw [shape]
    exact lexes_string (inside_quoteBody t)

theorem delimited_cons {u : UInt16} (stop : isWordUnit u = false) (rest : Text) : Delimited (u :: rest) := by
  intro v head
  rwa [← Option.some.inj head]

/-- Indentation. -/
def Blank (spaces : Text) : Prop := ∀ u ∈ spaces, isSpace u = true

theorem blank_lineFeed {indent : Text} (blank : Blank indent) : Blank (lineFeed :: indent) := by
  intro u member
  rcases List.mem_cons.mp member with rfl | later
  · rfl
  · exact blank u later

theorem blank_gap {indent : Text} (blank : Blank indent) : Blank (indent ++ gap) := by
  intro u member
  rcases List.mem_append.mp member with left | right
  · exact blank u left
  · have spaces : ∀ v ∈ gap, v = 0x20 := by
      intro v inside
      simpa [gap, lit] using inside
    rw [spaces u right]
    rfl

theorem Lexes.indented {part : Text} {ts : List Token} (lexes : Lexes part ts) {indent : Text} (blank : Blank indent) :
    Lexes (lineFeed :: (indent ++ part)) ts := by
  intro rest delimited
  have spaces := lexFrom_spaces (blank_lineFeed blank) (part ++ rest)
  rw [lexes rest delimited] at spaces
  rwa [List.cons_append, List.append_assoc, ← List.cons_append]

/-- The parts behind the first. -/
theorem lexes_rest {indent : Text} (blank : Blank indent) {parts : List Text} {tss : List (List Token)}
    (each : List.Forall₂ Lexes parts tss) {more : Text} (delimited : Delimited more) :
    Delimited ((parts.flatMap fun part => Punctuator.comma.unit :: lineFeed :: (indent ++ part)) ++ more) ∧
      lexFrom .between ((parts.flatMap fun part => Punctuator.comma.unit :: lineFeed :: (indent ++ part)) ++ more) =
        (tss.flatMap fun ts => .punctuator .comma :: ts) ++ lexFrom .between more := by
  induction each with
  | nil => exact ⟨delimited, rfl⟩
  | @cons part ts parts tss own _ ih =>
    obtain ⟨later, lexed⟩ := ih
    refine ⟨delimited_cons rfl _, ?_⟩
    rw [List.flatMap_cons, List.flatMap_cons, List.append_assoc, List.cons_append, lexFrom_punctuator,
      own.indented blank _ later, lexed]
    simp

theorem lexes_blockBody {stepback indent : Text} (blank : Blank stepback) (blank' : Blank indent) {parts : List Text}
    {tss : List (List Token)} (each : List.Forall₂ Lexes parts tss) (opening closing : Punctuator) :
    Lexes (block opening closing stepback indent parts) (separated opening closing tss) := by
  intro rest _
  rw [block, List.cons_append, lexFrom_punctuator, List.append_assoc]
  cases each with
  | nil =>
    rw [blockBody, List.nil_append, List.singleton_append, lexFrom_punctuator]
    rfl
  | @cons part ts parts tss own others =>
    have close : lexFrom .between (lineFeed :: stepback ++ (closing.unit :: rest)) =
        .punctuator closing :: lexFrom .between rest := by
      rw [lexFrom_spaces (blank_lineFeed blank), lexFrom_punctuator]
    have behind : Delimited (lineFeed :: stepback ++ (closing.unit :: rest)) := delimited_cons rfl _
    obtain ⟨delimited, lexed⟩ := lexes_rest blank' others behind
    have flat : blockBody stepback indent (part :: parts) ++ ([closing.unit] ++ rest) =
        lineFeed :: (indent ++ part) ++
          ((parts.flatMap fun part => Punctuator.comma.unit :: lineFeed :: (indent ++ part)) ++
            (lineFeed :: stepback ++ (closing.unit :: rest))) := by
      simp [blockBody]
    rw [flat, own.indented blank' _ delimited, lexed, close, separated]
    simp

/-! The order of the properties is one of the same properties. -/

theorem ownProperties_perm {α : Type} (l : List (Text × α)) : (ownProperties l).Perm l := by
  have rest : (l.filter fun p => (arrayIndex p.1).isNone) = l.filter fun p => !(arrayIndex p.1).isSome := by
    apply List.filter_congr
    intro p _
    rw [Option.not_isSome]
  rw [ownProperties, rest]
  exact ((List.perm_insertionSort _ _).append_right _).trans (List.filter_append_perm _ l)

/-- The order looks at the keys only. -/
theorem ownProperties_map {α β : Type} (f : α → β) (l : List (Text × α)) :
    ownProperties (l.map fun p => (p.1, f p.2)) = (ownProperties l).map fun p => (p.1, f p.2) := by
  rw [ownProperties, ownProperties, List.map_append, List.filter_map, List.filter_map]
  congr 1
  apply Eq.symm
  apply List.map_insertionSort
  intro a _ b _
  rfl

/-! The syntax tree of what is printed for a value. -/

def syntaxOf : Value → Syntax :=
  Tree.fold (fun s => .leaf s.literal) .array
    fun properties => .object ((ownProperties properties).map fun p => (quoteBody p.1, p.2))

theorem forall₂_map {α : Type} {f : α → Text} {g : α → List Token} {l : List α} (each : ∀ a ∈ l, Lexes (f a) (g a)) :
    List.Forall₂ Lexes (l.map f) (l.map g) := by
  rw [List.forall₂_map_left_iff, List.forall₂_map_right_iff, List.forall₂_same]
  exact each

/-- A printed property is its key, a colon and the printed value. -/
theorem lexes_property {key text : Text} {ts : List Token} (value : Lexes text ts) :
    Lexes (quote key ++ lit ": " ++ text) (memberTokens (quoteBody key, ts)) := by
  intro rest delimited
  have space : ∀ u ∈ lit " ", isSpace u = true := by
    intro u member
    have own : u = 0x20 := by simpa [lit] using member
    rw [own]
    rfl
  have flat : quote key ++ lit ": " ++ text ++ rest =
      quoteUnit :: (quoteBody key ++ quoteUnit :: Punctuator.colon.unit :: (lit " " ++ (text ++ rest))) := by
    simp [quote, lit, Punctuator.unit]
  rw [flat, lexFrom_string (inside_quoteBody key), lexFrom_punctuator, lexFrom_spaces space, value rest delimited]
  rfl

theorem stringifyUnder_array (items : List Value) (stepback : Text) : stringifyUnder (.array items) stepback =
    block .openBracket .closeBracket stepback (stepback ++ gap)
      (items.map fun item => stringifyUnder item (stepback ++ gap)) := by
  rw [stringifyUnder, Tree.fold_array, List.map_map]
  rfl

theorem stringifyUnder_object (properties : List (Text × Value)) (stepback : Text) :
    stringifyUnder (.object properties) stepback = block .openBrace .closeBrace stepback (stepback ++ gap)
      ((ownProperties properties).map fun p => quote p.1 ++ lit ": " ++ stringifyUnder p.2 (stepback ++ gap)) := by
  have parts := ownProperties_map stringifyUnder properties
  rw [stringifyUnder, Tree.fold_object, ← stringifyUnder, parts, List.map_map]
  rfl

/-- Whatever the indentation, the tokens are those of the tree. -/
theorem lexes_stringifyUnder (v : Value) (stepback : Text) (blank : Blank stepback) :
    Lexes (stringifyUnder v stepback) (tokens (syntaxOf v)) := by
  induction v using Tree.induction generalizing stepback with
  | leaf s => exact lexes_literal s
  | array items ih =>
    rw [stringifyUnder_array, syntaxOf, Tree.fold_array, tokens, Tree.fold_array, List.map_map]
    apply lexes_blockBody blank (blank_gap blank)
    apply forall₂_map
    intro item member
    exact ih item member (stepback ++ gap) (blank_gap blank)
  | object properties ih =>
    rw [stringifyUnder_object, syntaxOf, Tree.fold_object, tokens, Tree.fold_object, ownProperties_map,
      List.map_map, List.map_map, List.map_map]
    apply lexes_blockBody blank (blank_gap blank)
    apply forall₂_map
    intro p member
    exact lexes_property (ih p ((ownProperties_perm properties).mem_iff.mp member) (stepback ++ gap) (blank_gap blank))

theorem lex_stringify (v : Value) : lex (stringify v) = tokens (syntaxOf v) := by
  have whole := lexes_stringifyUnder v [] (by intro u member; cases member) [] (by intro u member; cases member)
  rw [List.append_nil] at whole
  rw [lex, stringify, whole]
  exact List.append_nil _

end Js.Json

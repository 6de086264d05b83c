import Tracium.Js.Text
import Tracium.Js.Tree

/-! The tokens of a text and the syntax of JSON over them. White space separates tokens and
is no part of one; a string literal is one token, and so is a run of other units, which is a
number or a keyword when the text is JSON. Whether a literal is one of the grammar is for the
meaning of the tree to say. -/
namespace Js.Json

inductive Punctuator where
  | openBrace | closeBrace | openBracket | closeBracket | comma | colon
  deriving DecidableEq

def Punctuator.unit : Punctuator → UInt16
  | .openBrace => 0x7B
  | .closeBrace => 0x7D
  | .openBracket => 0x5B
  | .closeBracket => 0x5D
  | .comma => 0x2C
  | .colon => 0x3A

def punctuator (u : UInt16) : Option Punctuator :=
  [.openBrace, .closeBrace, .openBracket, .closeBracket, .comma, .colon].find? fun p => p.unit = u

/-- Tab, line feed, carriage return and space. -/
def isSpace (u : UInt16) : Bool := u = 0x09 || u = 0x0A || u = 0x0D || u = 0x20

def quoteUnit : UInt16 := 0x22
def backslash : UInt16 := 0x5C

/-- A string token holds what stands between its quotes, an unclosed one all that follows
the quote. -/
inductive Token where
  | punctuator (p : Punctuator)
  | string (raw : Text)
  | word (raw : Text)
  | unclosed (raw : Text)
  deriving DecidableEq

/-! The lexer: a machine over the units. -/

inductive Reading where
  | between
  | word (raw : Text)
  | string (raw : Text) (escaped : Bool)

def isWordUnit (u : UInt16) : Bool := !isSpace u && u ≠ quoteUnit && (punctuator u).isNone

/-- A unit outside a word and outside a string. -/
def enter (u : UInt16) : List Token × Reading :=
  if isSpace u then ([], .between)
  else if u = quoteUnit then ([], .string [] false)
  else
    match punctuator u with
    | some p => ([.punctuator p], .between)
    | none => ([], .word [u])

def Reading.step : Reading → UInt16 → List Token × Reading
  | .between, u => enter u
  | .word raw, u =>
    if isWordUnit u then ([], .word (raw ++ [u])) else (.word raw :: (enter u).1, (enter u).2)
  | .string raw true, u => ([], .string (raw ++ [u]) false)
  | .string raw false, u =>
    if u = backslash then ([], .string (raw ++ [u]) true)
    else if u = quoteUnit then ([.string raw], .between)
    else ([], .string (raw ++ [u]) false)

def Reading.finish : Reading → List Token
  | .between => []
  | .word raw => [.word raw]
  | .string raw _ => [.unclosed raw]

def lexFrom : Reading → Text → List Token
  | reading, [] => reading.finish
  | reading, u :: rest => (reading.step u).1 ++ lexFrom (reading.step u).2 rest

def lex (text : Text) : List Token := lexFrom .between text

/-! What the lexer makes of the parts of a text. -/

/-- A word ends here. -/
def Delimited (rest : Text) : Prop := ∀ u ∈ rest.head?, isWordUnit u = false

/-- The escapes of a string literal, from inside it; `none` once a quote closes it. -/
def stringRun : Bool → Text → Option Bool
  | escaped, [] => some escaped
  | true, _ :: rest => stringRun false rest
  | false, u :: rest =>
    if u = backslash then stringRun true rest else if u = quoteUnit then none else stringRun false rest

/-- A text that stands inside a string literal without closing it. -/
def Inside (body : Text) : Prop := stringRun false body = some false

theorem stringRun_append (escaped : Bool) (a b : Text) :
    stringRun escaped (a ++ b) = (stringRun escaped a).bind fun e => stringRun e b := by
  induction a generalizing escaped with
  | nil => rfl
  | cons u a ih =>
    cases escaped with
    | true => exact ih false
    | false =>
      rw [List.cons_append, stringRun, stringRun]
      split
      · exact ih true
      · split
        · rfl
        · exact ih false

theorem Inside.append {a b : Text} (ha : Inside a) (hb : Inside b) : Inside (a ++ b) := by
  unfold Inside at ha hb ⊢
  rw [stringRun_append, ha]
  exact hb

theorem lexFrom_spaces {spaces : Text} (blank : ∀ u ∈ spaces, isSpace u = true) (rest : Text) :
    lexFrom .between (spaces ++ rest) = lexFrom .between rest := by
  induction spaces with
  | nil => rfl
  | cons u spaces ih =>
    have own := blank u List.mem_cons_self
    have step : Reading.between.step u = ([], .between) := by rw [Reading.step, enter, if_pos own]
    rw [List.cons_append, lexFrom, step]
    exact ih fun v member => blank v (List.mem_cons_of_mem u member)

theorem lexFrom_punctuator (p : Punctuator) (rest : Text) :
    lexFrom .between (p.unit :: rest) = .punctuator p :: lexFrom .between rest := by
  have step : Reading.between.step p.unit = ([.punctuator p], .between) := by cases p <;> rfl
  rw [lexFrom, step]
  rfl

theorem lexFrom_inside {escaped after : Bool} {body : Text} (inside : stringRun escaped body = some after)
    (raw rest : Text) :
    lexFrom (.string raw escaped) (body ++ rest) = lexFrom (.string (raw ++ body) after) rest := by
  induction body generalizing escaped raw with
  | nil =>
    obtain rfl := Option.some.inj inside
    rw [List.append_nil]
    rfl
  | cons u body ih =>
    have assoc : raw ++ u :: body = raw ++ [u] ++ body := by rw [List.append_assoc]; rfl
    rw [List.cons_append, lexFrom, assoc]
    cases escaped with
    | true => exact ih inside (raw ++ [u])
    | false =>
      rw [stringRun] at inside
      rw [Reading.step]
      by_cases escape : u = backslash
      · rw [if_pos escape] at inside
        rw [if_pos escape]
        exact ih inside (raw ++ [u])
      · rw [if_neg escape] at inside
        rw [if_neg escape]
        by_cases close : u = quoteUnit
        · rw [if_pos close] at inside
          cases inside
        · rw [if_neg close] at inside
          rw [if_neg close]
          exact ih inside (raw ++ [u])

theorem lexFrom_string {body : Text} (inside : Inside body) (rest : Text) :
    lexFrom .between (quoteUnit :: (body ++ quoteUnit :: rest)) = .string body :: lexFrom .between rest := by
  have opening : Reading.between.step quoteUnit = ([], .string [] false) := rfl
  have closing : (Reading.string body false).step quoteUnit = ([.string body], .between) := rfl
  rw [lexFrom, opening, List.nil_append, lexFrom_inside inside, List.nil_append, lexFrom, closing]
  rfl

theorem enter_word {u : UInt16} (word : isWordUnit u = true) : enter u = ([], .word [u]) := by
  simp only [isWordUnit, Bool.and_eq_true, Bool.not_eq_true', decide_eq_true_eq, Option.isNone_iff_eq_none] at word
  obtain ⟨⟨noSpace, noQuote⟩, none⟩ := word
  rw [enter, noSpace, if_neg Bool.false_ne_true, if_neg noQuote, none]

theorem lexFrom_word_end {rest : Text} (delimited : Delimited rest) (raw : Text) :
    lexFrom (.word raw) rest = .word raw :: lexFrom .between rest := by
  cases rest with
  | nil => rfl
  | cons u rest =>
    have stop := delimited u rfl
    have step : (Reading.word raw).step u = (.word raw :: (enter u).1, (enter u).2) := by
      rw [Reading.step, stop, if_neg Bool.false_ne_true]
    rw [lexFrom, lexFrom, step]
    rfl

theorem lexFrom_word_rest {more rest : Text} (word : ∀ u ∈ more, isWordUnit u = true)
    (delimited : Delimited rest) (raw : Text) :
    lexFrom (.word raw) (more ++ rest) = .word (raw ++ more) :: lexFrom .between rest := by
  induction more generalizing raw with
  | nil =>
    rw [List.append_nil]
    exact lexFrom_word_end delimited raw
  | cons u more ih =>
    have own := word u List.mem_cons_self
    have step : (Reading.word raw).step u = ([], .word (raw ++ [u])) := by rw [Reading.step, if_pos own]
    have later := ih (fun v member => word v (List.mem_cons_of_mem u member)) (raw ++ [u])
    rw [List.append_assoc] at later
    rw [List.cons_append, lexFrom, step]
    exact later

theorem lexFrom_word {raw rest : Text} (nonempty : raw ≠ []) (word : ∀ u ∈ raw, isWordUnit u = true)
    (delimited : Delimited rest) :
    lexFrom .between (raw ++ rest) = .word raw :: lexFrom .between rest := by
  cases raw with
  | nil => exact absurd rfl nonempty
  | cons u more =>
    have step : Reading.between.step u = ([], .word [u]) := enter_word (word u List.mem_cons_self)
    rw [List.cons_append, lexFrom, step]
    exact lexFrom_word_rest (fun v member => word v (List.mem_cons_of_mem u member)) delimited [u]

/-! Syntax trees. -/

inductive Literal where
  | word (raw : Text)
  | string (raw : Text)
  deriving DecidableEq

/-- The members are keyed by what stands between the quotes. -/
abbrev Syntax := Tree Literal Text

def Literal.token : Literal → Token
  | .word raw => .word raw
  | .string raw => .string raw

/-- The items with a comma in front of every one but the first. -/
def separated (opening closing : Punctuator) : List (List Token) → List Token
  | [] => [.punctuator opening, .punctuator closing]
  | first :: rest =>
    .punctuator opening :: (first ++ (rest.flatMap fun item => .punctuator .comma :: item) ++
      [.punctuator closing])

def memberTokens (m : Text × List Token) : List Token := .string m.1 :: .punctuator .colon :: m.2

def tokens : Syntax → List Token :=
  Tree.fold (fun l => [l.token]) (separated .openBracket .closeBracket)
    fun members => separated .openBrace .closeBrace (members.map memberTokens)

/-! The parser. -/

mutual

def parseValue : Nat → List Token → Option (Syntax × List Token)
  | _ + 1, .word raw :: rest => some (.leaf (.word raw), rest)
  | _ + 1, .string raw :: rest => some (.leaf (.string raw), rest)
  | fuel + 1, .punctuator .openBracket :: rest =>
    match rest with
    | .punctuator .closeBracket :: rest => some (.array [], rest)
    | _ => do
      let (first, rest) ← parseValue fuel rest
      let (items, rest) ← parseItems fuel rest
      some (.array (first :: items), rest)
  | fuel + 1, .punctuator .openBrace :: rest =>
    match rest with
    | .punctuator .closeBrace :: rest => some (.object [], rest)
    | _ => do
      let (first, rest) ← parseMember fuel rest
      let (members, rest) ← parseMembers fuel rest
      some (.object (first :: members), rest)
  | _, _ => none

/-- What follows an item of an array. -/
def parseItems : Nat → List Token → Option (List Syntax × List Token)
  | _ + 1, .punctuator .closeBracket :: rest => some ([], rest)
  | fuel + 1, .punctuator .comma :: rest => do
    let (item, rest) ← parseValue fuel rest
    let (items, rest) ← parseItems fuel rest
    some (item :: items, rest)
  | _, _ => none

def parseMember : Nat → List Token → Option ((Text × Syntax) × List Token)
  | fuel + 1, .string key :: .punctuator .colon :: rest => do
    let (t, rest) ← parseValue fuel rest
    some ((key, t), rest)
  | _, _ => none

/-- What follows a member of an object. -/
def parseMembers : Nat → List Token → Option (List (Text × Syntax) × List Token)
  | _ + 1, .punctuator .closeBrace :: rest => some ([], rest)
  | fuel + 1, .punctuator .comma :: rest => do
    let (m, rest) ← parseMember fuel rest
    let (members, rest) ← parseMembers fuel rest
    some (m :: members, rest)
  | _, _ => none

end

/-! A tree is read back from its tokens, and only from them. -/

/-- The items after the first one, and the members. -/
def itemTokens (items : List Syntax) : List Token := items.flatMap fun t => .punctuator .comma :: tokens t

def membersTokens (members : List (Text × Syntax)) : List Token :=
  members.flatMap fun m => .punctuator .comma :: memberTokens (m.1, tokens m.2)

theorem tokens_array_cons (first : Syntax) (items : List Syntax) : tokens (.array (first :: items)) =
    .punctuator .openBracket :: (tokens first ++ itemTokens items ++ [.punctuator .closeBracket]) := by
  rw [tokens, Tree.fold_array, List.map_cons, separated, List.flatMap_map]
  rfl

theorem tokens_object_cons (first : Text × Syntax) (members : List (Text × Syntax)) :
    tokens (.object (first :: members)) = .punctuator .openBrace ::
      (memberTokens (first.1, tokens first.2) ++ membersTokens members ++ [.punctuator .closeBrace]) := by
  rw [tokens, Tree.fold_object, List.map_map, List.map_cons, separated, List.flatMap_map]
  rfl

theorem parseValue_bracket {fuel : Nat} {rest : List Token}
    (open' : ∀ tail, rest ≠ .punctuator .closeBracket :: tail) :
    parseValue (fuel + 1) (.punctuator .openBracket :: rest) = (do
      let (first, rest) ← parseValue fuel rest
      let (items, rest) ← parseItems fuel rest
      some (.array (first :: items), rest)) := by
  rw [parseValue]
  exact open'

theorem parseValue_brace {fuel : Nat} {rest : List Token}
    (open' : ∀ tail, rest ≠ .punctuator .closeBrace :: tail) :
    parseValue (fuel + 1) (.punctuator .openBrace :: rest) = (do
      let (first, rest) ← parseMember fuel rest
      let (members, rest) ← parseMembers fuel rest
      some (.object (first :: members), rest)) := by
  rw [parseValue]
  exact open'

/-- What each of the parsers consumes. -/
structure Sound (fuel : Nat) : Prop where
  value : ∀ {ts t rest}, parseValue fuel ts = some (t, rest) → ts = tokens t ++ rest
  items : ∀ {ts items rest}, parseItems fuel ts = some (items, rest) →
    ts = itemTokens items ++ .punctuator .closeBracket :: rest
  member : ∀ {ts m rest}, parseMember fuel ts = some (m, rest) → ts = memberTokens (m.1, tokens m.2) ++ rest
  members : ∀ {ts members rest}, parseMembers fuel ts = some (members, rest) →
    ts = membersTokens members ++ .punctuator .closeBrace :: rest

theorem sound_zero : Sound 0 where
  value := by
    intro ts t rest parsed
    simp [parseValue] at parsed
  items := by
    intro ts items rest parsed
    simp [parseItems] at parsed
  member := by
    intro ts m rest parsed
    simp [parseMember] at parsed
  members := by
    intro ts members rest parsed
    simp [parseMembers] at parsed

theorem Sound.array {fuel : Nat} (sound : Sound fuel) {ts rest : List Token} {t : Syntax}
    (parsed : parseValue (fuel + 1) (.punctuator .openBracket :: ts) = some (t, rest)) :
    .punctuator .openBracket :: ts = tokens t ++ rest := by
  by_cases empty : ∃ tail, ts = .punctuator .closeBracket :: tail
  · obtain ⟨tail, rfl⟩ := empty
    rw [parseValue] at parsed
    obtain ⟨rfl, rfl⟩ := Prod.mk.inj (Option.some.inj parsed)
    rfl
  · rw [parseValue_bracket fun tail same => empty ⟨tail, same⟩] at parsed
    simp only [Option.bind_eq_bind, Option.bind_eq_some_iff, Option.some.injEq, Prod.mk.injEq,
      Prod.exists] at parsed
    obtain ⟨first, rest', value, items, rest'', others, rfl, rfl⟩ := parsed
    rw [tokens_array_cons, sound.value value, sound.items others]
    simp

theorem Sound.object {fuel : Nat} (sound : Sound fuel) {ts rest : List Token} {t : Syntax}
    (parsed : parseValue (fuel + 1) (.punctuator .openBrace :: ts) = some (t, rest)) :
    .punctuator .openBrace :: ts = tokens t ++ rest := by
  by_cases empty : ∃ tail, ts = .punctuator .closeBrace :: tail
  · obtain ⟨tail, rfl⟩ := empty
    rw [parseValue] at parsed
    obtain ⟨rfl, rfl⟩ := Prod.mk.inj (Option.some.inj parsed)
    rfl
  · rw [parseValue_brace fun tail same => empty ⟨tail, same⟩] at parsed
    simp only [Option.bind_eq_bind, Option.bind_eq_some_iff, Option.some.injEq, Prod.mk.injEq] at parsed
    obtain ⟨⟨first, rest'⟩, value, ⟨members, rest''⟩, others, rfl, rfl⟩ := parsed
    dsimp only at others ⊢
    rw [tokens_object_cons, sound.member value, sound.members others]
    simp

theorem Sound.value_step {fuel : Nat} (sound : Sound fuel) {ts rest : List Token} {t : Syntax}
    (parsed : parseValue (fuel + 1) ts = some (t, rest)) : ts = tokens t ++ rest := by
  cases ts with
  | nil => simp [parseValue] at parsed
  | cons head ts =>
    cases head with
    | word raw =>
      rw [parseValue] at parsed
      obtain ⟨rfl, rfl⟩ := Prod.mk.inj (Option.some.inj parsed)
      rfl
    | string raw =>
      rw [parseValue] at parsed
      obtain ⟨rfl, rfl⟩ := Prod.mk.inj (Option.some.inj parsed)
      rfl
    | unclosed raw => simp [parseValue] at parsed
    | punctuator p =>
      cases p with
      | openBracket => exact sound.array parsed
      | openBrace => exact sound.object parsed
      | closeBracket => simp [parseValue] at parsed
      | closeBrace => simp [parseValue] at parsed
      | comma => simp [parseValue] at parsed
      | colon => simp [parseValue] at parsed

theorem Sound.items_step {fuel : Nat} (sound : Sound fuel) {ts rest : List Token} {items : List Syntax}
    (parsed : parseItems (fuel + 1) ts = some (items, rest)) :
    ts = itemTokens items ++ .punctuator .closeBracket :: rest := by
  rw [parseItems.eq_def] at parsed
  split at parsed
  · obtain ⟨rfl, rfl⟩ := Prod.mk.inj (Option.some.inj parsed)
    rfl
  · rename_i same
    obtain rfl := Nat.succ.inj same
    simp only [Option.bind_eq_bind, Option.bind_eq_some_iff, Option.some.injEq, Prod.mk.injEq,
      Prod.exists] at parsed
    obtain ⟨item, rest', value, others, rest'', later, rfl, rfl⟩ := parsed
    rw [sound.value value, sound.items later]
    simp [itemTokens]
  · cases parsed

theorem Sound.member_step {fuel : Nat} (sound : Sound fuel) {ts rest : List Token} {m : Text × Syntax}
    (parsed : parseMember (fuel + 1) ts = some (m, rest)) : ts = memberTokens (m.1, tokens m.2) ++ rest := by
  rw [parseMember.eq_def] at parsed
  split at parsed
  · rename_i same
    obtain rfl := Nat.succ.inj same
    simp only [Option.bind_eq_bind, Option.bind_eq_some_iff, Option.some.injEq, Prod.mk.injEq,
      Prod.exists] at parsed
    obtain ⟨t, rest', value, rfl, rfl⟩ := parsed
    rw [sound.value value]
    simp [memberTokens]
  · cases parsed

theorem Sound.members_step {fuel : Nat} (sound : Sound fuel) {ts rest : List Token} {members : List (Text × Syntax)}
    (parsed : parseMembers (fuel + 1) ts = some (members, rest)) :
    ts = membersTokens members ++ .punctuator .closeBrace :: rest := by
  rw [parseMembers.eq_def] at parsed
  split at parsed
  · obtain ⟨rfl, rfl⟩ := Prod.mk.inj (Option.some.inj parsed)
    rfl
  · rename_i same
    obtain rfl := Nat.succ.inj same
    simp only [Option.bind_eq_bind, Option.bind_eq_some_iff, Option.some.injEq, Prod.mk.injEq] at parsed
    obtain ⟨⟨m, rest'⟩, value, ⟨others, rest''⟩, later, rfl, rfl⟩ := parsed
    dsimp only at later ⊢
    rw [sound.member value, sound.members later]
    simp [membersTokens]
  · cases parsed

theorem Sound.step {fuel : Nat} (sound : Sound fuel) : Sound (fuel + 1) where
  value := sound.value_step
  items := sound.items_step
  member := sound.member_step
  members := sound.members_step

theorem sound (fuel : Nat) : Sound fuel := by
  induction fuel with
  | zero => exact sound_zero
  | succ fuel ih => exact ih.step

/-- A value does not start like the end of a list. -/
theorem tokens_head (t : Syntax) (rest : List Token) (p : Punctuator)
    (closing : p ≠ .openBracket ∧ p ≠ .openBrace) : ∀ tail, tokens t ++ rest ≠ .punctuator p :: tail := by
  intro tail same
  cases t with
  | leaf l =>
    cases l with
    | word raw => cases same
    | string raw => cases same
  | array items =>
    cases items with
    | nil => exact closing.1 (Token.punctuator.inj (List.cons.inj same).1).symm
    | cons first items =>
      rw [tokens_array_cons, List.cons_append] at same
      exact closing.1 (Token.punctuator.inj (List.cons.inj same).1).symm
  | object members =>
    cases members with
    | nil => exact closing.2 (Token.punctuator.inj (List.cons.inj same).1).symm
    | cons first members =>
      rw [tokens_object_cons, List.cons_append] at same
      exact closing.2 (Token.punctuator.inj (List.cons.inj same).1).symm

/-- A tree is read with as much fuel as it has tokens. -/
def ReadBack (t : Syntax) : Prop :=
  ∀ fuel rest, (tokens t).length ≤ fuel → parseValue fuel (tokens t ++ rest) = some (t, rest)

theorem parseItems_tokens {items : List Syntax} (each : ∀ t ∈ items, ReadBack t) (fuel : Nat) (rest : List Token)
    (enough : (itemTokens items).length < fuel) :
    parseItems fuel (itemTokens items ++ .punctuator .closeBracket :: rest) = some (items, rest) := by
  induction items generalizing fuel with
  | nil =>
    cases fuel with
    | zero => omega
    | succ fuel => rfl
  | cons t items ih =>
    cases fuel with
    | zero => omega
    | succ fuel =>
      have split : itemTokens (t :: items) = .punctuator .comma :: (tokens t ++ itemTokens items) := rfl
      rw [split, List.length_cons, List.length_append] at enough
      have value := each t List.mem_cons_self fuel (itemTokens items ++ .punctuator .closeBracket :: rest) (by omega)
      have later := ih (fun x member => each x (List.mem_cons_of_mem t member)) fuel (by omega)
      rw [split, List.cons_append, List.append_assoc, parseItems, value]
      simp [later]

theorem parseMember_tokens {m : Text × Syntax} (value : ReadBack m.2) (fuel : Nat) (rest : List Token)
    (enough : (memberTokens (m.1, tokens m.2)).length ≤ fuel) :
    parseMember fuel (memberTokens (m.1, tokens m.2) ++ rest) = some (m, rest) := by
  cases fuel with
  | zero => simp [memberTokens] at enough
  | succ fuel =>
    simp only [memberTokens, List.length_cons] at enough
    have own := value fuel rest (by omega)
    rw [memberTokens, List.cons_append, List.cons_append, parseMember, own]
    rfl

theorem parseMembers_tokens {members : List (Text × Syntax)} (each : ∀ m ∈ members, ReadBack m.2) (fuel : Nat)
    (rest : List Token) (enough : (membersTokens members).length < fuel) :
    parseMembers fuel (membersTokens members ++ .punctuator .closeBrace :: rest) = some (members, rest) := by
  induction members generalizing fuel with
  | nil =>
    cases fuel with
    | zero => omega
    | succ fuel => rfl
  | cons m members ih =>
    cases fuel with
    | zero => omega
    | succ fuel =>
      have split : membersTokens (m :: members) =
          .punctuator .comma :: (memberTokens (m.1, tokens m.2) ++ membersTokens members) := rfl
      rw [split, List.length_cons, List.length_append] at enough
      have value := parseMember_tokens (each m List.mem_cons_self) fuel
        (membersTokens members ++ .punctuator .closeBrace :: rest) (by omega)
      have later := ih (fun x member => each x (List.mem_cons_of_mem m member)) fuel (by omega)
      rw [split, List.cons_append, List.append_assoc, parseMembers, value]
      simp [later]

theorem readBack_array {items : List Syntax} (each : ∀ t ∈ items, ReadBack t) : ReadBack (.array items) := by
  intro fuel rest enough
  cases fuel with
  | zero => cases items <;> simp [tokens, separated] at enough
  | succ fuel =>
    cases items with
    | nil => rfl
    | cons first items =>
      rw [tokens_array_cons] at enough ⊢
      simp only [List.length_cons, List.length_append, List.length_nil] at enough
      have value := each first List.mem_cons_self fuel (itemTokens items ++ .punctuator .closeBracket :: rest) (by omega)
      have others := parseItems_tokens (fun t member => each t (List.mem_cons_of_mem first member)) fuel rest (by omega)
      have flat : tokens first ++ itemTokens items ++ [.punctuator .closeBracket] ++ rest =
          tokens first ++ (itemTokens items ++ .punctuator .closeBracket :: rest) := by simp
      rw [List.cons_append, flat, parseValue_bracket (tokens_head first _ _ (by decide)), value]
      simp [others]

theorem readBack_object {members : List (Text × Syntax)} (each : ∀ m ∈ members, ReadBack m.2) :
    ReadBack (.object members) := by
  intro fuel rest enough
  cases fuel with
  | zero => cases members <;> simp [tokens, separated] at enough
  | succ fuel =>
    cases members with
    | nil => rfl
    | cons first members =>
      rw [tokens_object_cons] at enough ⊢
      simp only [List.length_cons, List.length_append, List.length_nil] at enough
      have value := parseMember_tokens (each first List.mem_cons_self) fuel
        (membersTokens members ++ .punctuator .closeBrace :: rest) (by omega)
      have others := parseMembers_tokens (fun m member => each m (List.mem_cons_of_mem first member)) fuel rest
        (by omega)
      have flat : memberTokens (first.1, tokens first.2) ++ membersTokens members ++ [.punctuator .closeBrace] ++
          rest = memberTokens (first.1, tokens first.2) ++
            (membersTokens members ++ .punctuator .closeBrace :: rest) := by simp
      -- a key is not the end of an object
      have open' : ∀ tail, memberTokens (first.1, tokens first.2) ++
          (membersTokens members ++ .punctuator .closeBrace :: rest) ≠ .punctuator .closeBrace :: tail := by
        intro tail same
        cases same
      rw [List.cons_append, flat, parseValue_brace open', value]
      simp [others]

theorem readBack (t : Syntax) : ReadBack t := by
  induction t using Tree.induction with
  | leaf l =>
    intro fuel rest enough
    cases fuel with
    | zero => simp [tokens] at enough
    | succ fuel => cases l <;> rfl
  | array items ih => exact readBack_array ih
  | object members ih => exact readBack_object ih

theorem tokens_injective : Function.Injective tokens := by
  intro t u same
  have left := readBack t (tokens t).length [] (Nat.le_refl _)
  have right := readBack u (tokens t).length [] (by rw [same])
  rw [same] at left
  exact (Prod.mk.inj (Option.some.inj (left.symm.trans (same ▸ right)))).1

/-- The tree of a whole list of tokens. -/
def parse (ts : List Token) : Option Syntax :=
  match parseValue ts.length ts with
  | some (t, []) => some t
  | _ => none

theorem parse_eq_some_iff (ts : List Token) (t : Syntax) : parse ts = some t ↔ ts = tokens t := by
  constructor
  · intro parsed
    unfold parse at parsed
    split at parsed
    · rename_i found
      obtain rfl := Option.some.inj parsed
      have consumed := (sound ts.length).value found
      rwa [List.append_nil] at consumed
    · cases parsed
  · rintro rfl
    have back := readBack t (tokens t).length [] (Nat.le_refl _)
    rw [List.append_nil] at back
    rw [parse, back]

end Js.Json

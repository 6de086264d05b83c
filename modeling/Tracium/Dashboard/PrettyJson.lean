import Tracium.Js.JsonCanonical

/-! trace-inspector: pretty-printing the JSON that stands in a text. The scanner finds the
bracketed groups of the text, and a group that parses is printed again. -/
namespace Tracium.Dashboard

open Js Js.Json

def isOpening (ch : UInt16) : Bool := ch = Punctuator.openBrace.unit || ch = Punctuator.openBracket.unit

def isClosing (ch : UInt16) : Bool := ch = Punctuator.closeBrace.unit || ch = Punctuator.closeBracket.unit

/-- The variables of the loop of findBalancedEnd. -/
structure Scan where
  depth : Int
  inString : Bool
  escaped : Bool

def Scan.start : Scan := ⟨0, false, false⟩

def Scan.step (s : Scan) (ch : UInt16) : Scan :=
  if s.inString then
    if s.escaped then { s with escaped := false }
    else if ch = backslash then { s with escaped := true }
    else if ch = quoteUnit then { s with inString := false }
    else s
  else if ch = quoteUnit then { s with inString := true }
  else if isOpening ch then { s with depth := s.depth + 1 }
  else if isClosing ch then { s with depth := s.depth - 1 }
  else s

/-- The loop from the index i on; `none` is -1. -/
def findFrom (s : Scan) (i : Nat) : Text → Option Nat
  | [] => none
  | ch :: rest =>
    let next := s.step ch
    if s.inString = false ∧ isClosing ch = true ∧ next.depth = 0 then some i else findFrom next (i + 1) rest

def findBalancedEnd (text : Text) (start : Nat) : Option Nat := findFrom .start start (text.drop start)

/-- An array of one scalar. -/
def isScalarRef : Value → Bool
  | .array [.leaf _] => true
  | _ => false

def prettifyGroup (group : Text) : Text :=
  match parseJson group with
  | some value => if isScalarRef value then group else stringify value
  | none => group

def slice (text : Text) (i j : Nat) : Text := (text.take j).drop i

/-- The loop of prettifyMaybeJson from the index i on. The indices of a group that was
printed again lie before `last`, and the loop jumps over them. -/
def prettifyFrom (text out : Text) (last i : Nat) : Text → Text
  | [] => out ++ text.drop last
  | ch :: rest =>
    if i < last then prettifyFrom text out last (i + 1) rest
    else if isOpening ch then
      match findBalancedEnd text i with
      | none => out ++ text.drop last
      | some close =>
        prettifyFrom text (out ++ slice text last i ++ prettifyGroup (slice text i (close + 1))) (close + 1) (i + 1) rest
    else prettifyFrom text out last (i + 1) rest

def prettifyMaybeJson (text : Text) : Text := prettifyFrom text [] 0 0 text

/-! What a reader is shown. -/

/-- A part of a text: prose, or a bracketed group. -/
inductive Segment where
  | prose (text : Text)
  | group (text : Text)
  deriving DecidableEq

def Segment.text : Segment → Text
  | .prose text => text
  | .group text => text

/-- The segments of a text behind some prose, after so many units that belong to a group.
From the first bracket on that never closes all is prose. -/
def segmentsFrom (prose : Text) : Nat → Text → List Segment
  | _, [] => [.prose prose]
  | skip + 1, _ :: rest => segmentsFrom prose skip rest
  | 0, ch :: rest =>
    if isOpening ch then
      match findFrom .start 0 (ch :: rest) with
      | none => [.prose (prose ++ ch :: rest)]
      | some close => .prose prose :: .group ((ch :: rest).take (close + 1)) :: segmentsFrom [] close rest
    else segmentsFrom (prose ++ [ch]) 0 rest

def segments (text : Text) : List Segment := segmentsFrom [] 0 text

/-- The prose as it stands, and the groups up to white space outside their literals. -/
inductive Shown where
  | prose (text : Text)
  | group (tokens : List Token)
  deriving DecidableEq

def Segment.shown : Segment → Shown
  | .prose text => .prose text
  | .group text => .group (lex text)

def shown (text : Text) : List Shown := (segments text).map Segment.shown

/-- A group that parses, unless it is an array of one scalar, is written canonically. -/
def KeptGroup (group : Text) : Prop :=
  ∀ t, parseSyntax group = some t → isScalarRef (valueOf t) = false → Canonical t

/-! The scanner on the parts of a text. -/

theorem findFrom_shift (s : Scan) (i j : Nat) (text : Text) :
    findFrom s (i + j) text = (findFrom s i text).map (· + j) := by
  induction text generalizing s i with
  | nil => rfl
  | cons ch rest ih =>
    simp only [findFrom]
    split
    · rfl
    · have next : i + j + 1 = i + 1 + j := by omega
      rw [next]
      exact ih _ (i + 1)

theorem findBalancedEnd_eq (text : Text) (start : Nat) :
    findBalancedEnd text start = (findFrom .start 0 (text.drop start)).map (· + start) := by
  have shifted := findFrom_shift .start 0 start (text.drop start)
  rwa [Nat.zero_add] at shifted

/-- The scan stops inside the text, and what follows the end does not matter. -/
theorem findFrom_some {s : Scan} {i n : Nat} {text : Text} (found : findFrom s i text = some n) :
    i ≤ n ∧ n < i + text.length ∧ ∀ more, findFrom s i (text.take (n - i + 1) ++ more) = some n := by
  induction text generalizing s i with
  | nil => cases found
  | cons ch rest ih =>
    simp only [findFrom] at found
    split at found
    · rename_i closes
      obtain rfl := Option.some.inj found
      refine ⟨Nat.le_refl i, by simp, ?_⟩
      intro more
      rw [Nat.sub_self, List.take_succ_cons, List.cons_append, findFrom]
      exact if_pos closes
    · rename_i goesOn
      obtain ⟨low, high, same⟩ := ih found
      refine ⟨by omega, by rw [List.length_cons]; omega, ?_⟩
      intro more
      have count : n - i + 1 = n - (i + 1) + 1 + 1 := by omega
      rw [count, List.take_succ_cons, List.cons_append, findFrom]
      simp only [if_neg goesOn]
      exact same more

/-- A text that the scanner reads over inside brackets. -/
def Passes (part : Text) : Prop := ∀ depth : Int, 0 < depth → ∀ i rest,
  findFrom ⟨depth, false, false⟩ i (part ++ rest) = findFrom ⟨depth, false, false⟩ (i + part.length) rest

theorem passes_nil : Passes [] := fun _ _ _ _ => rfl

theorem Passes.append {a b : Text} (ha : Passes a) (hb : Passes b) : Passes (a ++ b) := by
  intro depth positive i rest
  rw [List.append_assoc, ha depth positive, hb depth positive, List.length_append, Nat.add_assoc]

theorem passes_flatMap {α : Type} {f : α → Text} {l : List α} (each : ∀ a ∈ l, Passes (f a)) : Passes (l.flatMap f) := by
  induction l with
  | nil => exact passes_nil
  | cons a l ih =>
    rw [List.flatMap_cons]
    exact (each a List.mem_cons_self).append (ih fun b member => each b (List.mem_cons_of_mem a member))

/-- No quote and no bracket. -/
def Flat (u : UInt16) : Prop := u ≠ quoteUnit ∧ isOpening u = false ∧ isClosing u = false

theorem passes_flat {part : Text} (flat : ∀ u ∈ part, Flat u) : Passes part := by
  intro depth positive i rest
  induction part generalizing i with
  | nil => rfl
  | cons u part ih =>
    obtain ⟨noQuote, noOpening, noClosing⟩ := flat u List.mem_cons_self
    have step : (Scan.mk depth false false).step u = ⟨depth, false, false⟩ := by
      simp [Scan.step, noQuote, noOpening, noClosing]
    have later := ih (fun v member => flat v (List.mem_cons_of_mem u member)) (i + 1)
    rw [List.cons_append, findFrom, step, if_neg (by simp [noClosing]), later, List.length_cons]
    congr 1
    omega

theorem findFrom_inside {escaped after : Bool} {body : Text} (inside : stringRun escaped body = some after)
    (depth : Int) (i : Nat) (rest : Text) :
    findFrom ⟨depth, true, escaped⟩ i (body ++ rest) = findFrom ⟨depth, true, after⟩ (i + body.length) rest := by
  induction body generalizing escaped i with
  | nil =>
    obtain rfl := Option.some.inj inside
    rfl
  | cons u body ih =>
    have count : i + (u :: body).length = i + 1 + body.length := by rw [List.length_cons]; omega
    rw [List.cons_append, findFrom, if_neg (by simp), count]
    cases escaped with
    | true => exact ih inside (i + 1)
    | false =>
      rw [stringRun] at inside
      by_cases escape : u = backslash
      · rw [if_pos escape] at inside
        have step : (Scan.mk depth true false).step u = ⟨depth, true, true⟩ := by simp [Scan.step, escape]
        rw [step]
        exact ih inside (i + 1)
      · rw [if_neg escape] at inside
        by_cases close : u = quoteUnit
        · rw [if_pos close] at inside
          cases inside
        · rw [if_neg close] at inside
          have step : (Scan.mk depth true false).step u = ⟨depth, true, false⟩ := by simp [Scan.step, escape, close]
          rw [step]
          exact ih inside (i + 1)

theorem passes_string {body : Text} (inside : Inside body) : Passes (quoteUnit :: (body ++ [quoteUnit])) := by
  intro depth positive i rest
  have opening : (Scan.mk depth false false).step quoteUnit = ⟨depth, true, false⟩ := rfl
  have closing : (Scan.mk depth true false).step quoteUnit = ⟨depth, false, false⟩ := rfl
  rw [List.cons_append, findFrom, opening, if_neg (by simp [isClosing, quoteUnit, Punctuator.unit]), List.append_assoc,
    findFrom_inside inside, List.singleton_append, findFrom, closing, if_neg (by simp)]
  congr 1
  simp
  omega

/-! The scanner on what is printed. -/

theorem flat_of_word {u : UInt16} (word : isWordUnit u = true) : Flat u := by
  refine ⟨?_, ?_, ?_⟩
  · rintro rfl
    cases word
  · rw [isOpening, Bool.or_eq_false_iff, decide_eq_false_iff_not, decide_eq_false_iff_not]
    constructor
    · rintro rfl
      cases word
    · rintro rfl
      cases word
  · rw [isClosing, Bool.or_eq_false_iff, decide_eq_false_iff_not, decide_eq_false_iff_not]
    constructor
    · rintro rfl
      cases word
    · rintro rfl
      cases word

theorem flat_of_space {u : UInt16} (space : isSpace u = true) : Flat u := by
  simp only [isSpace, Bool.or_eq_true, decide_eq_true_eq] at space
  rcases space with ((rfl | rfl) | rfl) | rfl
  · exact ⟨by decide, rfl, rfl⟩
  · exact ⟨by decide, rfl, rfl⟩
  · exact ⟨by decide, rfl, rfl⟩
  · exact ⟨by decide, rfl, rfl⟩

theorem passes_blank {spaces : Text} (blank : Blank spaces) : Passes spaces :=
  passes_flat fun u member => flat_of_space (blank u member)

theorem passes_one {u : UInt16} (flat : Flat u) : Passes [u] := by
  apply passes_flat
  intro v member
  rwa [List.mem_singleton.mp member]

theorem passes_comma : Passes [Punctuator.comma.unit] := passes_one ⟨by decide, rfl, rfl⟩

theorem passes_literal (s : Scalar) : Passes s.literal.text := by
  rcases literal_cases s with ⟨raw, shape, -, word⟩ | ⟨t, shape⟩
  · rw [shape]
    exact passes_flat fun u member => flat_of_word (word u member)
  · rw [shape]
    exact passes_string (inside_quoteBody t)

theorem passes_blockBody {stepback indent : Text} (blank : Blank stepback) (blank' : Blank indent) {parts : List Text}
    (each : ∀ part ∈ parts, Passes part) : Passes (blockBody stepback indent parts) := by
  cases parts with
  | nil => exact passes_nil
  | cons first rest =>
    have own : ∀ part ∈ first :: rest, Passes (lineFeed :: (indent ++ part)) := by
      intro part member
      exact (passes_blank (blank_lineFeed blank')).append (each part member)
    have others : Passes (rest.flatMap fun part => Punctuator.comma.unit :: lineFeed :: (indent ++ part)) := by
      apply passes_flatMap
      intro part member
      exact passes_comma.append (own part (List.mem_cons_of_mem first member))
    have flat : blockBody stepback indent (first :: rest) = (lineFeed :: (indent ++ first)) ++
        (rest.flatMap fun part => Punctuator.comma.unit :: lineFeed :: (indent ++ part)) ++ lineFeed :: stepback := by
      simp [blockBody]
    rw [flat]
    exact ((own first List.mem_cons_self).append others).append (passes_blank (blank_lineFeed blank))

/-- The brackets of a pair, as the scanner sees them. -/
structure Brackets (opening closing : Punctuator) : Prop where
  opens : ∀ depth, (Scan.mk depth false false).step opening.unit = ⟨depth + 1, false, false⟩
  closes : ∀ depth, (Scan.mk depth false false).step closing.unit = ⟨depth - 1, false, false⟩
  first : isOpening opening.unit = true
  notLast : isClosing opening.unit = false
  last : isClosing closing.unit = true

theorem brackets : Brackets .openBracket .closeBracket := ⟨fun _ => rfl, fun _ => rfl, rfl, rfl, rfl⟩

theorem braces : Brackets .openBrace .closeBrace := ⟨fun _ => rfl, fun _ => rfl, rfl, rfl, rfl⟩

/-- From an opening bracket to its closing one, which ends the group if nothing was open
before. -/
theorem findFrom_block {opening closing : Punctuator} (pair : Brackets opening closing) {body : Text}
    (passes : Passes body) (depth : Int) (nonneg : 0 ≤ depth) (i : Nat) (rest : Text) :
    findFrom ⟨depth, false, false⟩ i (opening.unit :: (body ++ [closing.unit]) ++ rest) =
      if depth = 0 then some (i + 1 + body.length)
      else findFrom ⟨depth, false, false⟩ (i + 1 + body.length + 1) rest := by
  have back : depth + 1 - 1 = depth := by omega
  rw [List.cons_append, findFrom, pair.opens, if_neg (by simp [pair.notLast]), List.append_assoc,
    passes (depth + 1) (by omega), List.singleton_append, findFrom, pair.closes, back]
  simp only [pair.last, true_and]

theorem passes_block {opening closing : Punctuator} (pair : Brackets opening closing) {body : Text}
    (passes : Passes body) : Passes (opening.unit :: (body ++ [closing.unit])) := by
  intro depth positive i rest
  rw [findFrom_block pair passes depth (Int.le_of_lt positive), if_neg (by omega)]
  congr 1
  simp
  omega

theorem passes_property {key text : Text} (value : Passes text) : Passes (quote key ++ lit ": " ++ text) := by
  have separator : Passes (lit ": ") := by
    have shape : lit ": " = [Punctuator.colon.unit, 0x20] := by rfl
    rw [shape]
    exact (passes_one (u := Punctuator.colon.unit) ⟨by decide, rfl, rfl⟩).append
      (passes_one (u := 0x20) ⟨by decide, rfl, rfl⟩)
  exact ((passes_string (inside_quoteBody key)).append separator).append value

theorem passes_stringifyUnder (v : Value) (stepback : Text) (blank : Blank stepback) :
    Passes (stringifyUnder v stepback) := by
  induction v using Tree.induction generalizing stepback with
  | leaf s => exact passes_literal s
  | array items ih =>
    rw [stringifyUnder_array]
    apply passes_block brackets
    apply passes_blockBody blank (blank_gap blank)
    intro part member
    obtain ⟨item, inItems, rfl⟩ := List.mem_map.mp member
    exact ih item inItems (stepback ++ gap) (blank_gap blank)
  | object properties ih =>
    rw [stringifyUnder_object]
    apply passes_block braces
    apply passes_blockBody blank (blank_gap blank)
    intro part member
    obtain ⟨p, inProperties, rfl⟩ := List.mem_map.mp member
    exact passes_property (ih p ((ownProperties_perm properties).mem_iff.mp inProperties) (stepback ++ gap)
      (blank_gap blank))

/-! Groups. -/

/-- A text that the scanner takes for one group, whatever follows. -/
def Closed (group : Text) : Prop :=
  ∃ ch body, group = ch :: body ∧ isOpening ch = true ∧ ∀ more, findFrom .start 0 (group ++ more) = some body.length

theorem closed_block {opening closing : Punctuator} (pair : Brackets opening closing) {body : Text}
    (passes : Passes body) : Closed (opening.unit :: (body ++ [closing.unit])) := by
  refine ⟨opening.unit, body ++ [closing.unit], rfl, pair.first, ?_⟩
  intro more
  rw [Scan.start, findFrom_block pair passes 0 (Int.le_refl 0), if_pos rfl]
  simp
  omega

theorem closed_stringify {v : Value} (container : ∀ s, v ≠ .leaf s) : Closed (stringify v) := by
  have blank : Blank [] := by
    intro u member
    cases member
  have each : ∀ w : Value, Passes (stringifyUnder w ([] ++ gap)) := fun w => passes_stringifyUnder w _ (blank_gap blank)
  cases v with
  | leaf s => exact absurd rfl (container s)
  | array items =>
    rw [stringify, stringifyUnder_array]
    apply closed_block brackets
    apply passes_blockBody blank (blank_gap blank)
    intro part member
    obtain ⟨item, -, rfl⟩ := List.mem_map.mp member
    exact each item
  | object properties =>
    rw [stringify, stringifyUnder_object]
    apply closed_block braces
    apply passes_blockBody blank (blank_gap blank)
    intro part member
    obtain ⟨p, -, rfl⟩ := List.mem_map.mp member
    exact passes_property (each p.2)

theorem container_of_closed {group : Text} (closed : Closed group) {t : Syntax} (parsed : parseSyntax group = some t) :
    ∀ s, valueOf t ≠ .leaf s := by
  obtain ⟨ch, body, rfl, opens, -⟩ := closed
  have whole := (Option.filter_eq_some_iff.mp parsed).1
  rw [parse_eq_some_iff] at whole
  intro s same
  -- a scalar has one token, and it is no bracket
  have leaf : ∃ l, t = .leaf l := by
    cases t with
    | leaf l => exact ⟨l, rfl⟩
    | array items =>
      rw [valueOf, Tree.fold_array] at same
      cases same
    | object members =>
      rw [valueOf, Tree.fold_object] at same
      cases same
  obtain ⟨l, rfl⟩ := leaf
  have bracket : ∃ p, ch = Punctuator.unit p := by
    simp only [isOpening, Bool.or_eq_true, decide_eq_true_eq] at opens
    rcases opens with rfl | rfl
    · exact ⟨_, rfl⟩
    · exact ⟨_, rfl⟩
  obtain ⟨p, rfl⟩ := bracket
  rw [lex, lexFrom_punctuator] at whole
  cases l <;> cases whole

theorem prettifyGroup_closed {group : Text} (closed : Closed group) : Closed (prettifyGroup group) := by
  unfold prettifyGroup parseJson
  cases parsed : parseSyntax group with
  | none => exact closed
  | some t =>
    have container := container_of_closed closed parsed
    simp only [Option.map_some]
    split
    · exact closed
    · exact closed_stringify container

/-- Exactly the canonical groups keep their tokens. -/
theorem lex_prettifyGroup_iff (group : Text) : lex (prettifyGroup group) = lex group ↔ KeptGroup group := by
  unfold KeptGroup prettifyGroup parseJson
  cases parsed : parseSyntax group with
  | none => simp
  | some t =>
    have whole : lex group = tokens t := (parse_eq_some_iff _ t).mp (Option.filter_eq_some_iff.mp parsed).1
    simp only [Option.map_some, Option.some.injEq, forall_eq']
    cases scalar : isScalarRef (valueOf t) with
    | true => simp
    | false =>
      rw [if_neg Bool.false_ne_true, lex_stringify, whole, tokens_injective.eq_iff, syntaxOf_valueOf_iff]
      exact ⟨fun canonical _ => canonical, fun kept => kept rfl⟩

/-! Segments. -/

/-- No bracket opens a group. -/
def Prose (text : Text) : Prop := ∀ ch ∈ text, isOpening ch = false

theorem segmentsFrom_prose {front : Text} (prose : Prose front) (before rest : Text) :
    segmentsFrom before 0 (front ++ rest) = segmentsFrom (before ++ front) 0 rest := by
  induction front generalizing before with
  | nil => rw [List.nil_append, List.append_nil]
  | cons ch front ih =>
    have own := prose ch List.mem_cons_self
    have later := ih (fun x member => prose x (List.mem_cons_of_mem ch member)) (before ++ [ch])
    rw [List.append_assoc] at later
    rw [List.cons_append, segmentsFrom, own, if_neg Bool.false_ne_true, later]
    rfl

theorem segmentsFrom_prose_only {front : Text} (prose : Prose front) : segmentsFrom [] 0 front = [.prose front] := by
  have all := segmentsFrom_prose prose [] []
  rwa [List.append_nil, List.nil_append] at all

theorem Prose.append_unit {front : Text} (prose : Prose front) {ch : UInt16} (opens : isOpening ch = false) :
    Prose (front ++ [ch]) := by
  intro x member
  rcases List.mem_append.mp member with left | right
  · exact prose x left
  · rwa [List.mem_singleton.mp right]

theorem prose_nil : Prose [] := by
  intro x member
  cases member

theorem segmentsFrom_skip (front skipped rest : Text) :
    segmentsFrom front skipped.length (skipped ++ rest) = segmentsFrom front 0 rest := by
  induction skipped with
  | nil => rfl
  | cons ch skipped ih => exact ih

theorem segmentsFrom_closed {group : Text} (closed : Closed group) (before rest : Text) :
    segmentsFrom before 0 (group ++ rest) = .prose before :: .group group :: segmentsFrom [] 0 rest := by
  obtain ⟨ch, body, rfl, opens, scans⟩ := closed
  have scan := scans rest
  rw [List.cons_append] at scan
  rw [List.cons_append, segmentsFrom, if_pos opens, scan]
  dsimp only
  rw [segmentsFrom_skip, List.take_succ_cons, List.take_left]

/-- What the scanner finds is closed. -/
theorem closed_take {ch : UInt16} {rest : Text} {close : Nat} (opens : isOpening ch = true)
    (found : findFrom .start 0 (ch :: rest) = some close) : Closed ((ch :: rest).take (close + 1)) := by
  obtain ⟨-, high, same⟩ := findFrom_some found
  refine ⟨ch, rest.take close, List.take_succ_cons, opens, ?_⟩
  intro more
  rw [List.length_cons] at high
  rw [List.length_take, Nat.min_eq_left (by omega)]
  exact same more

/-- The text with each group of it printed again. -/
def Segment.pretty : Segment → Segment
  | .prose text => .prose text
  | .group text => .group (prettifyGroup text)

/-- The segments of what is printed are those of the text, the groups printed again. -/
theorem segments_pretty (front : Text) (prose : Prose front) (skip : Nat) (rest : Text) :
    segmentsFrom [] 0 ((segmentsFrom front skip rest).flatMap fun s => s.pretty.text) =
      (segmentsFrom front skip rest).map Segment.pretty := by
  have whole := segmentsFrom_prose_only prose
  induction rest generalizing front skip with
  | nil =>
    cases skip <;> simpa [segmentsFrom, Segment.pretty, Segment.text] using whole
  | cons ch rest ih =>
    cases skip with
    | succ skip => exact ih front prose skip whole
    | zero =>
      rw [segmentsFrom]
      cases opens : isOpening ch with
      | false =>
        have more := prose.append_unit opens
        exact ih (front ++ [ch]) more 0 (segmentsFrom_prose_only more)
      | true =>
        rw [if_pos rfl]
        cases found : findFrom .start 0 (ch :: rest) with
        | none =>
          have open' : segmentsFrom [] 0 (front ++ ch :: rest) = [.prose (front ++ ch :: rest)] := by
            rw [segmentsFrom_prose prose, List.nil_append, segmentsFrom, if_pos opens, found]
          simpa [Segment.pretty, Segment.text] using open'
        | some close =>
          have closed := prettifyGroup_closed (closed_take opens found)
          have later := ih [] prose_nil close rfl
          have parts : ((Segment.prose front :: Segment.group ((ch :: rest).take (close + 1)) ::
              segmentsFrom [] close rest).flatMap fun s => s.pretty.text) =
              front ++ (prettifyGroup ((ch :: rest).take (close + 1)) ++
                (segmentsFrom [] close rest).flatMap fun s => s.pretty.text) := rfl
          dsimp only
          rw [parts, segmentsFrom_prose prose, List.nil_append, segmentsFrom_closed closed, later]
          rfl

/-! The loop of the source is this printing. -/

theorem slice_self {text : Text} {i last : Nat} (behind : i ≤ last) : slice text last i = [] := by
  rw [slice, List.drop_eq_nil_iff, List.length_take]
  omega

/-- Where the index stands, in the words of what is left to read. -/
theorem lt_length_of_drop {text : Text} {i : Nat} {ch : UInt16} {rest : Text} (here : text.drop i = ch :: rest) :
    i < text.length := by
  have length := congrArg List.length here
  rw [List.length_drop, List.length_cons] at length
  omega

theorem drop_succ_of_drop {text : Text} {i : Nat} {ch : UInt16} {rest : Text} (here : text.drop i = ch :: rest) :
    text.drop (i + 1) = rest := by
  rw [← List.tail_drop, here, List.tail_cons]

theorem slice_append_drop {text : Text} {i last : Nat} (before : last ≤ i) :
    slice text last i ++ text.drop i = text.drop last := by
  have front : text.drop i = (text.drop last).drop (i - last) := by
    rw [List.drop_drop]
    congr 1
    omega
  rw [slice, List.drop_take, front, List.take_append_drop]

theorem slice_succ {text : Text} {i last : Nat} (before : last ≤ i) {ch : UInt16} {rest : Text}
    (here : text.drop i = ch :: rest) : slice text last (i + 1) = slice text last i ++ [ch] := by
  have inside := lt_length_of_drop here
  have at' : text[i]? = some ch := by
    rw [← List.head?_drop, here]
    rfl
  rw [slice, slice, List.take_add_one, at', List.drop_append_of_le_length (by rw [List.length_take]; omega)]
  rfl

theorem slice_group {text : Text} {i close : Nat} : slice text i (i + close + 1) = (text.drop i).take (close + 1) := by
  rw [slice, List.drop_take]
  congr 1
  omega

theorem prettifyFrom_eq (text out : Text) (last i : Nat) (rest : Text) (here : text.drop i = rest)
    (inside : i ≤ text.length) :
    prettifyFrom text out last i rest =
      out ++ (segmentsFrom (slice text last i) (last - i) rest).flatMap fun s => s.pretty.text := by
  induction rest generalizing out last i with
  | nil =>
    have whole : i = text.length := by
      have length := congrArg List.length here
      rw [List.length_drop, List.length_nil] at length
      omega
    have all : slice text last i = text.drop last := by rw [slice, whole, List.take_length]
    have single : segmentsFrom (slice text last i) (last - i) [] = [.prose (slice text last i)] := by
      cases last - i <;> rfl
    rw [prettifyFrom, single, all]
    simp [Segment.pretty, Segment.text]
  | cons ch rest ih =>
    have next := drop_succ_of_drop here
    have bound : i + 1 ≤ text.length := lt_length_of_drop here
    rw [prettifyFrom]
    by_cases skipped : i < last
    · rw [if_pos skipped, ih out last (i + 1) next bound, slice_self (by omega), slice_self (by omega)]
      have count : last - i = last - (i + 1) + 1 := by omega
      rw [count]
      rfl
    · have none : last - i = 0 := by omega
      have none' : last - (i + 1) = 0 := by omega
      rw [if_neg skipped, none, segmentsFrom]
      cases opens : isOpening ch with
      | false =>
        rw [if_neg Bool.false_ne_true, if_neg Bool.false_ne_true, ih out last (i + 1) next bound,
          slice_succ (by omega) here, none']
      | true =>
        rw [if_pos rfl, if_pos rfl]
        rw [findBalancedEnd_eq, here]
        cases found : findFrom .start 0 (ch :: rest) with
        | none =>
          have tail : slice text last i ++ ch :: rest = text.drop last := by
            rw [← here, slice_append_drop (by omega)]
          simp [Segment.pretty, Segment.text, tail]
        | some close =>
          have later := ih (out ++ slice text last i ++ prettifyGroup (slice text i (close + i + 1))) (close + i + 1)
            (i + 1) next bound
          have count : close + i + 1 - (i + 1) = close := by omega
          have jumped : slice text (close + i + 1) (i + 1) = [] := slice_self (by omega)
          rw [jumped, count] at later
          have group : slice text i (close + i + 1) = (ch :: rest).take (close + 1) := by
            rw [Nat.add_comm close i, slice_group, here]
          simp only [Option.map_some]
          rw [later, group]
          simp [Segment.pretty, Segment.text]

/-- Prose stays and groups are printed again. -/
theorem prettifyMaybeJson_eq (text : Text) :
    prettifyMaybeJson text = (segments text).flatMap fun s => s.pretty.text := by
  have whole := prettifyFrom_eq text [] 0 0 text rfl (Nat.zero_le _)
  rwa [List.nil_append, slice_self (Nat.le_refl 0)] at whole

/-- JSON inside a sentence. -/
example : prettifyMaybeJson (lit "Tool returned \x7b\"ok\":true\x7d after retry") =
    lit "Tool returned \x7b\n  \"ok\": true\n\x7d after retry" := by
  decide +kernel

theorem segments_prettifyMaybeJson (text : Text) :
    segments (prettifyMaybeJson text) = (segments text).map Segment.pretty := by
  rw [prettifyMaybeJson_eq]
  exact segments_pretty [] (by intro ch member; cases member) 0 text

theorem shown_prettifyMaybeJson_iff (text : Text) : shown (prettifyMaybeJson text) = shown text ↔
    ∀ group, .group group ∈ segments text → KeptGroup group := by
  have each : shown (prettifyMaybeJson text) = shown text ↔
      ∀ s ∈ segments text, s.pretty.shown = s.shown := by
    rw [shown, shown, segments_prettifyMaybeJson, List.map_map]
    exact List.map_inj_left
  rw [each]
  constructor
  · intro same group member
    rw [← lex_prettifyGroup_iff]
    exact Shown.group.inj (same _ member)
  · intro kept s member
    cases s with
    | prose text => rfl
    | group group => exact congrArg Shown.group ((lex_prettifyGroup_iff group).mpr (kept group member))

/-- An identifier of twenty digits is shown as another one. -/
theorem prettifyMaybeJson_changes_id :
    shown (prettifyMaybeJson (lit "\x7b\"id\":12345678901234567890\x7d")) ≠
      shown (lit "\x7b\"id\":12345678901234567890\x7d") := by
  decide +kernel

end Tracium.Dashboard

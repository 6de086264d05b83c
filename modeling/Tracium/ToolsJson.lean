import Tracium.Pipeline

/-! The JSON of the tool list. What the results assume of encoding/json is a structure,
and a concrete encoder and decoder for this one shape show that it can be met: they agree
with encoding/json on lists it writes without short escapes. -/
namespace Tracium

open Go

/-- encoding/json replaces every invalid byte of a string by U+FFFD. -/
def Tool.coerce (t : Tool) : Tool :=
  { t with name := mapRunes some t.name, description := mapRunes some t.description }

/-- What is assumed of json.Marshal and json.Unmarshal at the two tool types: decoding
undoes encoding, up to the coercion to UTF-8, and the empty text is a syntax error. -/
structure JsonTools {F : Type} (rt : Platform F) : Prop where
  roundTrip : ∀ tools, rt.unmarshalTools (rt.marshalTools tools) = some (tools.map Tool.coerce)
  empty : rt.unmarshalTools [] = none

theorem marshalTools_ne_nil {F : Type} {rt : Platform F} (json : JsonTools rt) (tools : List Tool) :
    rt.marshalTools tools ≠ [] := by
  intro empty
  have decoded := json.roundTrip tools
  rw [empty, json.empty] at decoded
  cases decoded

namespace ToolsJson

def needsEscape (b : UInt8) : Bool :=
  b < 0x20 || b == 0x22 || b == 0x5C || b == 0x3C || b == 0x3E || b == 0x26

def escapeByte (b : UInt8) : Str :=
  if needsEscape b then
    [0x5C, 0x75, 0x30, 0x30, hexDigit (b.toNat / 16), hexDigit (b.toNat % 16)]
  else [b]

def hexValue (b : UInt8) : Nat := if b < 0x3A then b.toNat - 0x30 else b.toNat - 0x57

/-- The rest of a string literal: its content and what follows the closing quote. -/
def unescape : Str → Option (Str × Str)
  | [] => none
  | 0x22 :: rest => some ([], rest)
  | 0x5C :: 0x75 :: 0x30 :: 0x30 :: hi :: lo :: rest =>
    (unescape rest).map fun (s, rest) => (UInt8.ofNat (hexValue hi * 16 + hexValue lo) :: s, rest)
  | 0x5C :: _ => none
  | b :: rest => (unescape rest).map fun (s, rest) => (b :: s, rest)

def quoted (s : Str) : Str := (mapRunes some s).flatMap escapeByte ++ lit "\""

def expect (pre s : Str) : Option Str := if hasPrefix s pre then some (s.drop pre.length) else none

def encodeTool (t : Tool) : Str :=
  lit "\x7b\"name\":\"" ++ quoted t.name ++
    (if t.description = [] then [] else lit ",\"description\":\"" ++ quoted t.description) ++
    (if t.used then lit ",\"used\":true\x7d" else lit ",\"used\":false\x7d")

def parseUsed (s : Str) : Option (Bool × Str) :=
  match expect (lit ",\"used\":true\x7d") s with
  | some rest => some (true, rest)
  | none => (expect (lit ",\"used\":false\x7d") s).map fun rest => (false, rest)

def parseTool (s : Str) : Option (Tool × Str) := do
  let s ← expect (lit "\x7b\"name\":\"") s
  let (name, s) ← unescape s
  let (description, s) ← match expect (lit ",\"description\":\"") s with
    | some s => unescape s
    | none => some ([], s)
  let (used, s) ← parseUsed s
  return (⟨name, description, used⟩, s)

def encodeItems : List Tool → Str
  | [] => lit "]"
  | t :: rest => encodeTool t ++ (if rest = [] then [] else lit ",") ++ encodeItems rest

/-- Items up to the closing bracket, which must end the text. -/
def parseItems : Nat → Str → Option (List Tool)
  | 0, _ => none
  | fuel + 1, s =>
    if s = lit "]" then some []
    else do
      let (t, s) ← parseTool s
      let rest ← parseItems fuel ((expect (lit ",") s).getD s)
      return t :: rest

def marshal (tools : List Tool) : Str := lit "[" ++ encodeItems tools

def unmarshal (s : Str) : Option (List Tool) := do
  let s ← expect (lit "[") s
  parseItems (s.length + 1) s

theorem expect_append (pre rest : Str) : expect pre (pre ++ rest) = some rest := by
  simp [expect]

theorem hexValue_hexDigit (n : Nat) (small : n < 16) : hexValue (hexDigit n) = n := by
  decide +revert

theorem unescape_quoted (s rest : Str) :
    unescape (s.flatMap escapeByte ++ 0x22 :: rest) = some (s, rest) := by
  induction s with
  | nil => rfl
  | cons b s ih =>
    rw [List.flatMap_cons, List.append_assoc, escapeByte]
    have bound := b.toNat_lt
    split
    · have value : hexValue (hexDigit (b.toNat / 16)) * 16 + hexValue (hexDigit (b.toNat % 16)) =
          b.toNat := by
        rw [hexValue_hexDigit _ (by omega), hexValue_hexDigit _ (by omega)]
        omega
      simp [unescape, ih, value]
    · next plain =>
      simp only [needsEscape, Bool.or_eq_true, decide_eq_true_eq, beq_iff_eq, not_or] at plain
      rw [List.singleton_append, unescape, ih]
      · rfl
      · exact plain.1.1.1.1.2
      · intro hi lo tail escape
        exact absurd escape plain.1.1.1.2
      · exact plain.1.1.1.2

theorem unescape_quoted_append (s rest : Str) :
    unescape (quoted s ++ rest) = some (mapRunes some s, rest) := by
  rw [quoted, List.append_assoc]
  exact unescape_quoted (mapRunes some s) rest

theorem parseUsed_append (used : Bool) (rest : Str) :
    parseUsed ((if used then lit ",\"used\":true\x7d" else lit ",\"used\":false\x7d") ++ rest) =
      some (used, rest) := by
  cases used with
  | true => simp only [parseUsed, ↓reduceIte, expect_append]
  | false =>
    have other : expect (lit ",\"used\":true\x7d") (lit ",\"used\":false\x7d" ++ rest) = none := rfl
    simp only [parseUsed, Bool.false_eq_true, ↓reduceIte, other, expect_append, Option.map_some]

theorem mapRunes_nil : mapRunes some [] = [] := rfl

theorem parseTool_append (t : Tool) (rest : Str) :
    parseTool (encodeTool t ++ rest) = some (t.coerce, rest) := by
  simp only [parseTool, encodeTool, List.append_assoc, expect_append, unescape_quoted_append,
    Option.bind_eq_bind, Option.bind_some]
  by_cases blank : t.description = []
  · have skipped : ∀ s : Str, expect (lit ",\"description\":\"")
        ((if t.used then lit ",\"used\":true\x7d" else lit ",\"used\":false\x7d") ++ s) = none := by
      intro s
      cases t.used <;> rfl
    simp only [blank, ↓reduceIte, List.nil_append, skipped, Option.bind_some, parseUsed_append,
      Tool.coerce, mapRunes_nil]
    rfl
  · simp only [blank, ↓reduceIte, List.append_assoc, expect_append, unescape_quoted_append,
      Option.bind_some, parseUsed_append, Tool.coerce]
    rfl

theorem parseItems_encodeItems (tools : List Tool) (fuel : Nat) (enough : tools.length < fuel) :
    parseItems fuel (encodeItems tools) = some (tools.map Tool.coerce) := by
  induction tools generalizing fuel with
  | nil =>
    obtain ⟨fuel, rfl⟩ := Nat.exists_eq_succ_of_ne_zero (by omega : fuel ≠ 0)
    rfl
  | cons t rest ih =>
    obtain ⟨fuel, rfl⟩ := Nat.exists_eq_succ_of_ne_zero (by omega : fuel ≠ 0)
    have later := ih fuel (by simp only [List.length_cons] at enough; omega)
    have opens : encodeItems (t :: rest) ≠ lit "]" := by
      intro same
      have first : some (0x7B : UInt8) = some 0x5D := congrArg List.head? same
      cases first
    rw [parseItems, if_neg opens, encodeItems, List.append_assoc, parseTool_append]
    cases rest with
    | nil =>
      have closed : (expect (lit ",") (encodeItems [])).getD (encodeItems []) = encodeItems [] := rfl
      simp only [Option.bind_eq_bind, Option.bind_some, ↓reduceIte, List.nil_append, closed, later]
      rfl
    | cons next rest =>
      simp only [Option.bind_eq_bind, Option.bind_some, reduceCtorEq, ↓reduceIte, expect_append,
        Option.getD_some, later]
      rfl

theorem encodeItems_length (tools : List Tool) : tools.length < (encodeItems tools).length := by
  induction tools with
  | nil => decide
  | cons t rest ih =>
    have item : 0 < (encodeTool t).length := Nat.zero_lt_succ _
    simp only [encodeItems, List.length_cons, List.length_append]
    omega

theorem unmarshal_marshal (tools : List Tool) :
    unmarshal (marshal tools) = some (tools.map Tool.coerce) := by
  have length := encodeItems_length tools
  simp only [unmarshal, marshal, expect_append, Option.bind_eq_bind, Option.bind_some]
  exact parseItems_encodeItems tools _ (by omega)

end ToolsJson

/-- The plain platform with this JSON. -/
def jsonPlatform : Platform Int :=
  { plainPlatform with marshalTools := ToolsJson.marshal, unmarshalTools := ToolsJson.unmarshal }

theorem jsonPlatform_tools : JsonTools jsonPlatform where
  roundTrip := ToolsJson.unmarshal_marshal
  empty := rfl

end Tracium

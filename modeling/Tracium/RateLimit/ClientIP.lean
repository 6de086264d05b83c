import Tracium.Go.Net

/-! middleware.RateLimiter.clientIP: the key of a request. The header is read with
Header.Get, which is its first field line, so entries of later lines are not seen. -/
namespace Tracium.RateLimit

open Go

/-- What clientIP reads of a request: the peer, and the values of the X-Forwarded-For lines. -/
structure Request where
  remoteAddr : Str
  xForwardedFor : List Str

/-- parseCIDRs on one entry that is trimmed. -/
def parseNetwork (e : Str) : Option IPNet :=
  match parseCIDR e with
  | some ipNet => some ipNet
  | none => (parseIP e).map fun ip =>
    let bits := if (IP.to4 ip).isNone then 128 else 32
    ⟨ip, cidrMask bits bits⟩

def parseCIDRs (entries : List Str) : List IPNet :=
  (entries.map trimSpace).filterMap fun e => if e = [] then none else parseNetwork e

/-- Whom a limiter trusts while it handles a request. -/
structure Trust where
  trustedProxies : List IPNet
  /-- The answers of isNamedProxy to the checks of the request, in their order. -/
  isNamedProxy : Nat → IP → Bool

/-- peerHost strips the port, where there is one. -/
def peerHost (remoteAddr : Str) : Str := (splitHostPort remoteAddr).getD remoteAddr

namespace Trust

def isTrustedProxy (rl : Trust) (check : Nat) (ip : Str) : Bool :=
  match parseIP ip with
  | none => false
  | some parsed => rl.trustedProxies.any (·.contains parsed) || rl.isNamedProxy check parsed

/-- The loop of clientIP, over the entries from the right. -/
def walk (rl : Trust) (peer : Str) : Nat → List Str → Str
  | _, [] => peer
  | check, part :: parts =>
    let candidate := trimSpace part
    if (parseIP candidate).isNone then peer
    else if rl.isTrustedProxy check candidate then rl.walk peer (check + 1) parts
    else candidate

def clientIP (rl : Trust) (r : Request) : Str :=
  let peer := peerHost r.remoteAddr
  if ¬rl.isTrustedProxy 0 peer then peer
  else
    -- Header.Get
    let xff := r.xForwardedFor.headD []
    if xff = [] then peer else rl.walk peer 1 (xff.splitOn 0x2C).reverse

end Trust

/-- The entries of field lines, in order: repeated fields are one list. -/
def entries (lines : List Str) : List Str :=
  lines.flatMap fun line => (line.splitOn 0x2C).map trimSpace

namespace Trust

variable {rl : Trust} {peer c : Str}

/-- An entry that no check of the request trusts, though it is an address. -/
structure Client (rl : Trust) (c : Str) : Prop where
  parsed : parseIP c ≠ none
  untrusted : ∀ check, rl.isTrustedProxy check c = false

/-- Proxies from the right, each trusted when its turn comes. -/
def Skipped (rl : Trust) : Nat → List Str → Prop
  | _, [] => True
  | check, e :: skipped => rl.isTrustedProxy check e = true ∧ rl.Skipped (check + 1) skipped

theorem skipped_of_trusted {proxies : List Str}
    (trusted : ∀ e ∈ proxies, ∀ check, rl.isTrustedProxy check e = true) (check : Nat) :
    rl.Skipped check proxies := by
  induction proxies generalizing check with
  | nil => trivial
  | cons e rest ih =>
    obtain ⟨first, others⟩ := List.forall_mem_cons.mp trusted
    exact ⟨first check, ih others (check + 1)⟩

theorem parsed_of_trusted {check : Nat} {e : Str} (trusted : rl.isTrustedProxy check e = true) :
    parseIP e ≠ none := by
  intro unparsed
  rw [isTrustedProxy, unparsed] at trusted
  cases trusted

/-- The walk ends at a client just when only trusted proxies stand right of it. -/
theorem walk_eq_iff (client : rl.Client c) (apart : c ≠ peer) (check : Nat) (parts : List Str) :
    rl.walk peer check parts = c ↔
      ∃ skipped rest, parts.map trimSpace = skipped ++ c :: rest ∧ rl.Skipped check skipped := by
  induction parts generalizing check with
  | nil => simp [walk, apart.symm]
  | cons part parts ih =>
    have untrusted := client.untrusted check
    by_cases own : trimSpace part = c
    · have ends : rl.walk peer check (part :: parts) = c := by
        rw [walk, own, if_neg (by simpa using client.parsed), if_neg (by simp [untrusted])]
      exact ⟨fun _ => ⟨[], parts.map trimSpace, by rw [List.map_cons, own]; rfl, trivial⟩,
        fun _ => ends⟩
    · -- another entry lets the walk on to a client only if it is trusted
      have onward : rl.walk peer check (part :: parts) = c ↔
          rl.isTrustedProxy check (trimSpace part) = true ∧ rl.walk peer (check + 1) parts = c := by
        rw [walk]
        by_cases trusted : rl.isTrustedProxy check (trimSpace part) = true
        · have parsed := parsed_of_trusted trusted
          rw [if_neg (by simpa using parsed), if_pos trusted]
          exact ⟨fun same => ⟨trusted, same⟩, fun both => both.2⟩
        · constructor
          · intro same
            split at same
            · exact absurd same.symm apart
            · exact absurd same own
          · intro both
            exact absurd both.1 trusted
      rw [onward, ih (check + 1)]
      constructor
      · rintro ⟨trusted, skipped, rest, split, all⟩
        exact ⟨trimSpace part :: skipped, rest, by rw [List.map_cons, split]; rfl, trusted, all⟩
      · rintro ⟨skipped, rest, split, all⟩
        cases skipped with
        | nil => exact absurd (List.cons.inj split).1 own
        | cons e skipped =>
          obtain ⟨rfl, later⟩ := List.cons.inj split
          exact ⟨all.1, skipped, rest, later, all.2⟩

theorem clientIP_untrusted {r : Request} (untrusted : rl.isTrustedProxy 0 (peerHost r.remoteAddr) = false) :
    rl.clientIP r = peerHost r.remoteAddr := by
  rw [clientIP]
  exact if_pos (by simp [untrusted])

end Trust

/-- The entries of the field line that is read. -/
def firstEntries (r : Request) : List Str := entries [r.xForwardedFor.headD []]

theorem splitOn_trimmed (line : Str) :
    ((line.splitOn 0x2C).reverse.map trimSpace) = (entries [line]).reverse := by
  rw [entries, List.flatMap_singleton, List.map_reverse]

namespace Trust

variable {rl : Trust} {c : Str} {r : Request}

/-- Behind a trusted peer the key is a client just when the first field line ends in that
client and proxies that are trusted. -/
theorem clientIP_eq_iff (client : rl.Client c)
    (trusted : rl.isTrustedProxy 0 (peerHost r.remoteAddr) = true) :
    rl.clientIP r = c ↔
      ∃ own skipped, firstEntries r = own ++ c :: skipped ∧ rl.Skipped 1 skipped.reverse := by
  have apart : c ≠ peerHost r.remoteAddr := by
    rintro rfl
    rw [client.untrusted 0] at trusted
    cases trusted
  rw [clientIP, if_neg (by simp [trusted])]
  dsimp only
  by_cases empty : r.xForwardedFor.headD [] = []
  · rw [if_pos empty]
    have blank : firstEntries r = [[]] := by
      rw [firstEntries, empty]
      decide
    constructor
    · intro same
      exact absurd same.symm apart
    · rintro ⟨own, skipped, split, -⟩
      -- the only entry of an empty line is empty, which is no address
      have member : c ∈ firstEntries r := by
        rw [split]
        exact List.mem_append_right own List.mem_cons_self
      rw [blank, List.mem_singleton] at member
      exact absurd (congrArg parseIP member) client.parsed
  · rw [if_neg empty, walk_eq_iff client apart, splitOn_trimmed]
    constructor
    · rintro ⟨skipped, rest, split, all⟩
      refine ⟨rest.reverse, skipped.reverse, ?_, by rwa [List.reverse_reverse]⟩
      have back := congrArg List.reverse split
      rwa [List.reverse_reverse, List.reverse_append, List.reverse_cons, List.append_assoc] at back
    · rintro ⟨own, skipped, split, all⟩
      refine ⟨skipped.reverse, own.reverse, ?_, all⟩
      rw [← firstEntries, split, List.reverse_append, List.reverse_cons, List.append_assoc]
      rfl

end Trust

/-- A request that came through trusted proxies: the list of the header ends in the client
the first of them saw and the proxies behind it, after anything the client sent itself. -/
structure Forwarded (rl : Trust) (r : Request) (prior : List Str) (c : Str) (proxies : List Str) :
    Prop where
  peer : rl.isTrustedProxy 0 (peerHost r.remoteAddr) = true
  list : entries r.xForwardedFor = prior ++ c :: proxies
  client : rl.Client c
  trusted : ∀ e ∈ proxies, ∀ check, rl.isTrustedProxy check e = true

/-- While the client stands in the first field line, nothing before it matters. -/
theorem Forwarded.of_first_line {rl : Trust} {r : Request} {prior proxies : List Str} {c : Str}
    (forwarded : Forwarded rl r prior c proxies) (first : prior.length < (firstEntries r).length) :
    rl.clientIP r = c := by
  apply (Trust.clientIP_eq_iff forwarded.client forwarded.peer).mpr
  have list := forwarded.list
  cases lines : r.xForwardedFor with
  | nil =>
    rw [lines] at list
    simp [entries] at list
  | cons line rest =>
    have all : firstEntries r ++ entries rest = prior ++ c :: proxies := by
      rw [← list, firstEntries, lines, entries, entries, entries, List.flatMap_singleton]
      rfl
    -- the line reaches past the client, so what it has behind it are proxies
    rcases List.append_eq_append_iff.mp all with ⟨more, before, _⟩ | ⟨more, own, behind⟩
    · have length := congrArg List.length before
      rw [List.length_append] at length
      omega
    · cases more with
      | nil =>
        rw [own, List.append_nil] at first
        exact absurd first (Nat.lt_irrefl _)
      | cons e skipped =>
        obtain ⟨rfl, later⟩ := List.cons.inj behind
        refine ⟨prior, skipped, own, Trust.skipped_of_trusted ?_ 1⟩
        intro e member
        apply forwarded.trusted e
        rw [later]
        exact List.mem_append_left _ (List.mem_reverse.mp member)

/-- Behind an untrusted peer the key is the peer; behind a trusted one it is the forwarded
client just when the first field line ends in that client and trusted proxies. -/
theorem clientIP_forwarded_iff (rl : Trust) (r : Request) :
    (rl.isTrustedProxy 0 (peerHost r.remoteAddr) = false → rl.clientIP r = peerHost r.remoteAddr) ∧
    ∀ prior c proxies, Forwarded rl r prior c proxies →
      (rl.clientIP r = c ↔
        ∃ own skipped, firstEntries r = own ++ c :: skipped ∧ rl.Skipped 1 skipped.reverse) :=
  ⟨Trust.clientIP_untrusted, fun _ _ _ forwarded =>
    Trust.clientIP_eq_iff forwarded.client forwarded.peer⟩

def tenNet : Trust := ⟨parseCIDRs [lit "10.0.0.0/8"], fun _ _ => false⟩

/-- A request whose client sent an address that the proxy put its own behind. -/
def oneLine (sent : String) : Request :=
  ⟨lit "10.0.0.1:5555", [lit sent ++ lit ", 203.0.113.7, 10.0.0.2"]⟩

theorem oneLine_forwarded :
    Forwarded tenNet (oneLine "1.2.3.4") [lit "1.2.3.4"] (lit "203.0.113.7") [lit "10.0.0.2"] ∧
    tenNet.clientIP (oneLine "1.2.3.4") = lit "203.0.113.7" := by
  have forwarded : Forwarded tenNet (oneLine "1.2.3.4") [lit "1.2.3.4"] (lit "203.0.113.7")
      [lit "10.0.0.2"] := by
    refine ⟨by decide, by decide, ⟨by decide, fun _ => rfl⟩, ?_⟩
    intro e member check
    obtain rfl := List.mem_singleton.mp member
    rfl
  refine ⟨forwarded, ?_⟩
  apply ((clientIP_forwarded_iff tenNet (oneLine "1.2.3.4")).2 _ _ _ forwarded).mpr
  exact ⟨[lit "1.2.3.4"], [lit "10.0.0.2"], by decide, by decide, trivial⟩

/-- A request whose client sent a line of its own, before the line of the proxy. -/
def twoLines (sent : String) : Request :=
  ⟨lit "10.0.0.1:5555", [lit sent, lit "203.0.113.7, 10.0.0.2"]⟩

/-- The client chooses its key. -/
theorem twoLines_spoofed :
    Forwarded tenNet (twoLines "1.2.3.4") [lit "1.2.3.4"] (lit "203.0.113.7") [lit "10.0.0.2"] ∧
    tenNet.clientIP (twoLines "1.2.3.4") = lit "1.2.3.4" ∧
    tenNet.clientIP (twoLines "5.6.7.8") = lit "5.6.7.8" ∧
    lit "1.2.3.4" ≠ lit "203.0.113.7" := by
  refine ⟨⟨by decide, by decide, ⟨by decide, fun _ => rfl⟩, ?_⟩, by decide, by decide, by decide⟩
  intro e member check
  obtain rfl := List.mem_singleton.mp member
  rfl

end Tracium.RateLimit

import Tracium.Go.Strconv

/-! Addresses as package net reads them. -/
namespace Go

/-- net.IP: four bytes, or sixteen. -/
abbrev IP := List UInt8

def v4InV6Prefix : IP := List.replicate 10 0x00 ++ [0xFF, 0xFF]

/-- The four bytes of an IPv4 address in either form. -/
def IP.to4 (ip : IP) : Option IP :=
  if ip.length = 4 then some ip
  else if ip.length = 16 ∧ ip.take 12 = v4InV6Prefix then some (ip.drop 12)
  else none

/-- Both forms of an IPv4 address are equal. -/
def IP.equal (ip x : IP) : Bool :=
  if ip.length = x.length then ip == x
  else if ip.length = 4 ∧ x.length = 16 then x.take 12 == v4InV6Prefix && ip == x.drop 12
  else if ip.length = 16 ∧ x.length = 4 then ip.take 12 == v4InV6Prefix && ip.drop 12 == x
  else false

/-! Parsing. -/

/-- A decimal field of at most 255, without leading zeros. -/
def octet (s : Str) : Option UInt8 :=
  (parseDigits s).bind fun n =>
    if n ≤ 255 ∧ ¬(s.head? = some 0x30 ∧ s.length > 1) then some (UInt8.ofNat n) else none

def parseIPv4 (s : Str) : Option IP :=
  match s.splitOn 0x2E with
  | [a, b, c, d] =>
    (octet a).bind fun a => (octet b).bind fun b => (octet c).bind fun c =>
      (octet d).map fun d => [a, b, c, d]
  | _ => none

def hexValue (b : UInt8) : Option Nat :=
  if 0x30 ≤ b ∧ b ≤ 0x39 then some (b.toNat - 0x30)
  else if 0x61 ≤ b ∧ b ≤ 0x66 then some (b.toNat - 0x61 + 10)
  else if 0x41 ≤ b ∧ b ≤ 0x46 then some (b.toNat - 0x41 + 10)
  else none

/-- The two bytes of a group of hexadecimal digits. -/
def hexGroup (digits : Str) : List UInt8 :=
  let acc := (digits.filterMap hexValue).foldl (fun acc d => acc * 16 + d) 0
  [UInt8.ofNat (acc / 256), UInt8.ofNat (acc % 256)]

/-- The groups still to come, at most `room` of them, behind the bytes read so far; the
number is the place of the ellipsis among the bytes. -/
def parseGroups : Nat → Option Nat → List UInt8 → Str → Option (Option Nat × List UInt8)
  | 0, ellipsis, ip, s => if s.isEmpty then some (ellipsis, ip) else none
  | room + 1, ellipsis, ip, s =>
    let digits := s.takeWhile fun b => (hexValue b).isSome
    if digits.isEmpty || digits.length > 4 then none
    else match s.drop digits.length with
      | [] => some (ellipsis, ip ++ hexGroup digits)
      | 0x2E :: _ =>
        if ellipsis.isNone && ip.length != 12 || ip.length + 4 > 16 then none
        else (parseIPv4 s).map fun v4 => (ellipsis, ip ++ v4)
      | [0x3A] => none
      | [0x3A, 0x3A] =>
        if ellipsis.isSome then none else some (some (ip.length + 2), ip ++ hexGroup digits)
      | 0x3A :: 0x3A :: rest =>
        if ellipsis.isSome then none
        else parseGroups room (some (ip.length + 2)) (ip ++ hexGroup digits) rest
      | 0x3A :: rest => parseGroups room ellipsis (ip ++ hexGroup digits) rest
      | _ => none

/-- An address without a zone; net.ParseIP takes none. -/
def parseIPv6 (s : Str) : Option IP :=
  let groups := match s with
    | [0x3A, 0x3A] => some (some 0, [])
    | 0x3A :: 0x3A :: rest => parseGroups 8 (some 0) [] rest
    | _ => parseGroups 8 none [] s
  groups.bind fun (ellipsis, ip) =>
    if ip.length < 16 then
      -- the ellipsis stands for the bytes that are missing
      ellipsis.map fun i => ip.take i ++ List.replicate (16 - ip.length) 0x00 ++ ip.drop i
    else if ellipsis.isSome then none
    else some ip

/-- netip.ParseAddr on an address without a zone, and its length in bits. -/
def parseAddr (s : Str) : Option (IP × Nat) :=
  match s.find? fun b => b == 0x2E || b == 0x3A with
  | some 0x2E => (parseIPv4 s).map fun ip => (v4InV6Prefix ++ ip, 32)
  | some 0x3A => (parseIPv6 s).map fun ip => (ip, 128)
  | _ => none

def parseIP (s : Str) : Option IP := (parseAddr s).map Prod.fst

/-! Networks. -/

structure IPNet where
  ip : IP
  mask : List UInt8

/-- net.CIDRMask. -/
def cidrMask (ones bits : Nat) : List UInt8 :=
  (List.range (bits / 8)).map fun i => UInt8.ofNat (0xFF - 0xFF >>> min 8 (ones - 8 * i))

def IP.masked (ip : IP) (mask : List UInt8) : IP := List.zipWith (· &&& ·) ip mask

def parseCIDR (s : Str) : Option IPNet :=
  let addr := s.takeWhile (· != 0x2F)
  match s.drop addr.length with
  | [] => none
  | _ :: bits =>
    (parseAddr addr).bind fun (ip, bitLen) => (parseDigits bits).bind fun n =>
      if n ≤ bitLen then
        let mask := cidrMask n bitLen
        some ⟨IP.masked (if bitLen = 32 then ip.drop 12 else ip) mask, mask⟩
      else none

def IPNet.contains (n : IPNet) (ip : IP) : Bool :=
  let number := n.ip.to4.getD n.ip
  let mask := if number.length = 4 ∧ n.mask.length = 16 then n.mask.drop 12 else n.mask
  let ip := ip.to4.getD ip
  ip.length = number.length && mask.length = number.length && number.masked mask == ip.masked mask

/-! Hosts and ports. -/

/-- The host of net.SplitHostPort. -/
def splitHostPort (hostport : Str) : Option Str :=
  let port := hostport.reverse.takeWhile (· != 0x3A)
  if port.length = hostport.length then none
  else
    -- what stands before the last colon
    let front := hostport.take (hostport.length - port.length - 1)
    match hostport with
    | 0x5B :: rest =>
      let host := rest.takeWhile (· != 0x5D)
      if front = 0x5B :: host ++ [0x5D] ∧ ¬0x5B ∈ rest ∧ ¬0x5D ∈ port then some host else none
    | _ => if 0x3A ∈ front ∨ 0x5B ∈ hostport ∨ 0x5D ∈ hostport then none else some front

end Go

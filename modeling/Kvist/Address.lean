import Kvist.Text

/-!
# Internet addresses

The standard spelling of IPv4 and IPv6 addresses, and the address classes of the standard library.
-/

set_option autoImplicit false

namespace Kvist.Address

/-- Four octets. -/
structure Ipv4 where
  first : Nat
  second : Nat
  third : Nat
  fourth : Nat
  deriving DecidableEq, Repr

/-- Eight groups of sixteen bits. -/
structure Ipv6 where
  segments : List Nat
  deriving DecidableEq, Repr

inductive IpAddress where
  | v4 (address : Ipv4)
  | v6 (address : Ipv6)
  deriving DecidableEq, Repr

def digitValue (radix : Nat) (character : Char) : Option Nat :=
  let value :=
    if '0' ≤ character ∧ character ≤ '9' then some (character.toNat - '0'.toNat)
    else if 'a' ≤ character ∧ character ≤ 'z' then some (character.toNat - 'a'.toNat + 10)
    else if 'A' ≤ character ∧ character ≤ 'Z' then some (character.toNat - 'A'.toNat + 10)
    else none
  value.filter (· < radix)

/-- The digits that a number starts with, and the text behind them. -/
def takeDigits (radix : Nat) : List Char → List Nat × List Char
  | [] => ([], [])
  | character :: rest =>
      match digitValue radix character with
      | none => ([], character :: rest)
      | some digit => (digit :: (takeDigits radix rest).1, (takeDigits radix rest).2)

def ofDigits (radix : Nat) (digits : List Nat) : Nat :=
  digits.foldl (fun value digit => value * radix + digit) 0

def readNumber (radix maxDigits limit : Nat) (leadingZeros : Bool) (text : List Char) :
    Option (Nat × List Char) :=
  let (digits, rest) := takeDigits radix text
  if digits.isEmpty || maxDigits < digits.length ||
      (!leadingZeros && digits.head? == some 0 && 1 < digits.length) ||
      limit < ofDigits radix digits then none
  else some (ofDigits radix digits, rest)

def readGiven (expected : Char) : List Char → Option (List Char)
  | [] => none
  | character :: rest => if character = expected then some rest else none

def readIpv4 (text : List Char) : Option (Ipv4 × List Char) := do
  let (first, text) ← readNumber 10 3 255 false text
  let (second, text) ← readNumber 10 3 255 false (← readGiven '.' text)
  let (third, text) ← readNumber 10 3 255 false (← readGiven '.' text)
  let (fourth, text) ← readNumber 10 3 255 false (← readGiven '.' text)
  return (⟨first, second, third, fourth⟩, text)

/-- Groups of an IPv6 address, as many as fit and are there. The last two of them can be written
as an IPv4 address. -/
def readGroups : Nat → Bool → List Char → List Nat × Bool × List Char
  | 0, _, text => ([], false, text)
  | left + 1, initial, text =>
      let separated := if initial then some text else readGiven ':' text
      match separated with
      | none => ([], false, text)
      | some inside =>
          match if 0 < left then readIpv4 inside else none with
          | some (address, rest) =>
              ([address.first * 256 + address.second, address.third * 256 + address.fourth], true,
                rest)
          | none =>
              match readNumber 16 4 65535 true inside with
              | none => ([], false, text)
              | some (group, rest) =>
                  let others := readGroups left false rest
                  (group :: others.1, others.2.1, others.2.2)

def readIpv6 (text : List Char) : Option (Ipv6 × List Char) :=
  let (head, mixed, rest) := readGroups 8 true text
  if head.length = 8 then some (⟨head⟩, rest)
  else if mixed then none
  else do
    let rest ← readGiven ':' (← readGiven ':' rest)
    let (tail, _, rest) := readGroups (8 - (head.length + 1)) true rest
    return (⟨head ++ List.replicate (8 - head.length - tail.length) 0 ++ tail⟩, rest)

def parseIpv6 (text : List Char) : Option Ipv6 :=
  (readIpv6 text).bind fun read => if read.2.isEmpty then some read.1 else none

def parseIpAddress (text : List Char) : Option IpAddress :=
  let read := ((readIpv4 text).map fun read => (IpAddress.v4 read.1, read.2)).or
    ((readIpv6 text).map fun read => (IpAddress.v6 read.1, read.2))
  read.bind fun read => if read.2.isEmpty then some read.1 else none

namespace Ipv4

def isPrivate (address : Ipv4) : Bool :=
  address.first == 10 || (address.first == 172 && 16 ≤ address.second && address.second ≤ 31) ||
    (address.first == 192 && address.second == 168)

def isLoopback (address : Ipv4) : Bool := address.first == 127

def isLinkLocal (address : Ipv4) : Bool := address.first == 169 && address.second == 254

def isBroadcast (address : Ipv4) : Bool := address == ⟨255, 255, 255, 255⟩

def isUnspecified (address : Ipv4) : Bool := address == ⟨0, 0, 0, 0⟩

end Ipv4

namespace Ipv6

def isLoopback (address : Ipv6) : Bool := address.segments == [0, 0, 0, 0, 0, 0, 0, 1]

def isUnspecified (address : Ipv6) : Bool := address.segments == [0, 0, 0, 0, 0, 0, 0, 0]

def firstSegment (address : Ipv6) : Nat := address.segments.headD 0

def isMulticast (address : Ipv6) : Bool := address.firstSegment / 256 == 255

/-- The address in `::ffff:a.b.c.d`. -/
def toIpv4Mapped (address : Ipv6) : Option Ipv4 :=
  match address.segments with
  | [0, 0, 0, 0, 0, 0xffff, high, low] => some ⟨high / 256, high % 256, low / 256, low % 256⟩
  | _ => none

end Ipv6

example : parseIpv6 "::1:8080".toList = some ⟨[0, 0, 0, 0, 0, 0, 1, 0x8080]⟩ := by decide

end Kvist.Address

import Perimeter.Text.Numeral

/-!
Protocols of the internet layer by number. Four have names; every other one is
written as its number. Reading ignores the case of letters and also takes any
number up to 255.
-/

namespace Perimeter

/-- A protocol, identified by its assigned number. -/
structure Protocol where
  number : UInt8
deriving DecidableEq

namespace Protocol

def icmp : Protocol := ⟨1⟩

def tcp : Protocol := ⟨6⟩

def udp : Protocol := ⟨17⟩

def icmpv6 : Protocol := ⟨58⟩

/-- The protocol with a number, if there is one. -/
def ofNat? (n : Nat) : Option Protocol := if n < 256 then some ⟨n.toUInt8⟩ else none

def text (p : Protocol) : String :=
  if p = icmp then "icmp"
  else if p = tcp then "tcp"
  else if p = udp then "udp"
  else if p = icmpv6 then "icmpv6"
  else Text.decimal p.number.toNat

/-- The protocol that a name or number writes. -/
def ofText? (s : String) : Option Protocol :=
  let lower := s.toLower
  if lower = "icmp" then some icmp
  else if lower = "tcp" then some tcp
  else if lower = "udp" then some udp
  else if lower = "icmpv6" ∨ lower = "ipv6-icmp" then some icmpv6
  else (Text.readUnsigned? s.toList).bind ofNat?

/-- What is said of a text that writes no protocol. -/
def unknownMessage (s : String) : String := "unknown protocol '" ++ s ++ "'"

end Protocol

end Perimeter

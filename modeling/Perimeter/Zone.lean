/-!
References to zones of devices, written as the device, a colon and the zone.
The first colon of a text separates the two.
-/

namespace Perimeter

/-- A zone of a device. -/
structure ZoneRef where
  device : String
  zone : String
deriving DecidableEq

namespace ZoneRef

def text (z : ZoneRef) : String := z.device ++ ":" ++ z.zone

/-- The zone a text names; both parts must have characters. -/
def ofText? (s : String) : Option ZoneRef :=
  match s.toList.span (· ≠ ':') with
  | (d :: device, ':' :: z :: zone) =>
    some ⟨String.ofList (d :: device), String.ofList (z :: zone)⟩
  | _ => none

/-- What is said of a text that names no zone. -/
def malformedMessage (s : String) : String := "expected device:zone, got '" ++ s ++ "'"

end ZoneRef

end Perimeter

import ResourceQuery.Json.Text
import ResourceQuery.Schema

/-!
# Requests

A request names the properties to read and the time ranges that qualify some of them.  A
request without property ids asks for every property.
-/

namespace ResourceQuery

/-- A range of time with a sampling step, in seconds. -/
structure TimeRange where
  /-- The start, in seconds since the epoch. -/
  start : Int
  /-- The end; without one the range is open. -/
  stop : Option Int
  step : Option Nat
deriving DecidableEq

namespace TimeRange

/-- The earliest time that can be represented. -/
def earliest : Int := -8334601228800

/-- The latest time that can be represented. -/
def latest : Int := 8210266876799

/-- Whether a time can be represented. -/
def isTime (seconds : Int) : Bool := earliest ≤ seconds && seconds ≤ latest

/-- The range with the given ends, if both can be represented. -/
def ofSeconds? (start : Int) (stop : Option Int) (step : Option Nat) : Option TimeRange :=
  if isTime start && stop.all isTime then some ⟨start, stop, step⟩ else none

end TimeRange

/-- What is asked of a provider. -/
structure Request where
  /-- The properties to read; none means all. -/
  propertyIds : SortedSet PropertyId
  /-- The time range asked for each property that has one. -/
  timeRanges : SortedMap PropertyId TimeRange
deriving DecidableEq

namespace Request

/-- The request for every property. -/
def all : Request := ⟨∅, ∅⟩

/-- Whether every property is asked for. -/
def isAll (r : Request) : Bool := r.propertyIds.isEmpty

/-- The request in words. -/
def display (r : Request) : String :=
  if r.isAll then "Request(properties=*)"
  else
    let ids := String.intercalate ", " (r.propertyIds.toList.map (·.text))
    let ranges :=
      if r.timeRanges.isEmpty then "" else ", temporal=" ++ decimalText r.timeRanges.size
    "Request(properties=[" ++ ids ++ "]" ++ ranges ++ ")"

end Request
end ResourceQuery

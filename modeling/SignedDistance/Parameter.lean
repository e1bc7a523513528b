import SignedDistance.Number.Single
import SignedDistance.Decimal.Text

set_option autoImplicit false

/-! # Parameters with a range

Settings are numbers with a range each. A check names the parameter that it is about, so that the
first value out of range can be reported. A NaN is in no range. -/

namespace SignedDistance

/-- A parameter whose value is out of range. -/
inductive ParameterError where
  | notPositive (name : String) (value : Float32)
  | negative (name : String) (value : Float32)
  | outsideUnit (name : String) (value : Float32)
  | zeroCount (name : String)

def ParameterError.message : ParameterError → String
  | .notPositive name value =>
    s!"Invalid parameter: {name} must be positive, got {Single.text value}"
  | .negative name value =>
    s!"Invalid parameter: {name} must not be negative, got {Single.text value}"
  | .outsideUnit name value =>
    s!"Invalid parameter: {name} must be within [0, 1], got {Single.text value}"
  | .zeroCount name => s!"Invalid parameter: {name} must be at least 1"

namespace Parameter

def positive (name : String) (value : Float32) : Except ParameterError Unit :=
  if Single.isPositiveFinite value then .ok () else .error (.notPositive name value)

def nonNegative (name : String) (value : Float32) : Except ParameterError Unit :=
  if 0 ≤ value && value.isFinite then .ok () else .error (.negative name value)

def unitInterval (name : String) (value : Float32) : Except ParameterError Unit :=
  if 0 ≤ value && value ≤ 1 then .ok () else .error (.outsideUnit name value)

def atLeastOne (name : String) (value : UInt32) : Except ParameterError Unit :=
  if value = 0 then .error (.zeroCount name) else .ok ()

end Parameter

end SignedDistance

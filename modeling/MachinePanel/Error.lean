/-
Everything that can go wrong, by cause, and the message of each cause. Values
that are out of their domain, pins that are not there or not as expected, and
a status source that does not answer are errors of their own; an operation
that can fail in several of these ways reports a `PanelError`, whose message
says first which kind it is.
-/
import MachinePanel.Pin.Value
import MachinePanel.Text.Quoted

namespace MachinePanel

/-- What is wrong with the properties of an element. -/
inductive PropertyFault where
  /-- The range is empty. -/
  | emptyRange (min max : Float)
  /-- The step is not positive or not finite. -/
  | badResolution (step : Float)
  /-- A wheel has no detents. -/
  | noDetents
  /-- There is nothing to choose from. -/
  | noChoices
  /-- The choice does not exist. -/
  | noSuchChoice (index count : Nat)

namespace PropertyFault

/-- The property at fault. -/
def property : PropertyFault → String
  | emptyRange .. => "max"
  | badResolution _ => "resolution"
  | noDetents => "cpr"
  | noChoices | noSuchChoice .. => "choices"

/-- What the property should be. -/
def message : PropertyFault → String
  | emptyRange min max =>
    "must be greater than min (" ++ Binary64.shortestText min ++ "), got " ++
      Binary64.shortestText max
  | badResolution step => "must be a positive number, got " ++ Binary64.shortestText step
  | noDetents => "must be at least 1"
  | noChoices => "at least one choice is required"
  | noSuchChoice index count =>
    "index " ++ toString index ++ " out of range for " ++ toString count ++ " choices"

end PropertyFault

/-- A value outside its domain. -/
inductive ValueError where
  | invalidRunState (code : Int)
  | invalidTaskMode (code : Int)
  | invalidInterpState (code : Int)
  | invalidFormat (text : String)
  | invalidProperty (fault : PropertyFault)

/-- The message of a value error. -/
def ValueError.message : ValueError → String
  | invalidRunState code => "invalid run state code: " ++ toString code
  | invalidTaskMode code => "invalid task mode code: " ++ toString code
  | invalidInterpState code => "invalid interpreter state code: " ++ toString code
  | invalidFormat text => "invalid number format: " ++ Text.quote text
  | invalidProperty fault => "invalid widget property " ++ fault.property ++ ": " ++ fault.message

/-- A pin that is not there or not as expected. -/
inductive PinError where
  | notFound (name : String)
  | alreadyExists (name : String) (existing requested : ScalarType)
  | directionConflict (name : String) (existing requested : Direction)
  | directionForbidden (name : String) (direction : Direction)
  | typeMismatch (name : String) (expected actual : ScalarType)
  | invalidName (name : String)
  deriving DecidableEq, Repr

/-- The message of a pin error. -/
def PinError.message : PinError → String
  | notFound name => "pin " ++ name ++ " does not exist"
  | alreadyExists name existing requested =>
    "pin " ++ name ++ " already exists as " ++ existing.name ++ ", requested " ++ requested.name
  | directionConflict name existing requested =>
    "pin " ++ name ++ " already exists as " ++ existing.name ++ ", requested " ++ requested.name
  | directionForbidden name direction =>
    "pin " ++ name ++ " is " ++ direction.name ++ " and cannot be written by this component"
  | typeMismatch name expected actual =>
    "pin " ++ name ++ " holds " ++ actual.name ++ ", expected " ++ expected.name
  | invalidName name => "invalid pin name: " ++ Text.quote name

/-- A status source that gives no snapshot. -/
inductive SourceError where
  | unavailable (reason : String)
  | io (text : String)
  deriving DecidableEq, Repr

/-- The message of a source error. -/
def SourceError.message : SourceError → String
  | unavailable reason => "status source unavailable: " ++ reason
  | io text => "I/O error: " ++ text

/-- An error of an operation on the panel. -/
inductive PanelError where
  | value (e : ValueError)
  | pin (e : PinError)
  | source (e : SourceError)
  /-- A clock is started where nothing drives it. -/
  | noRuntime
  | unknownElement (tag : String)
  | noSuchElement (id : Nat)

/-- The message of a panel error. -/
def PanelError.message : PanelError → String
  | value e => "value error: " ++ e.message
  | pin e => "pin error: " ++ e.message
  | source e => "status source error: " ++ e.message
  | noRuntime => "no Tokio runtime is available to drive the clock"
  | unknownElement tag => "unknown widget element: " ++ tag
  | noSuchElement id => "no widget with id " ++ toString id

end MachinePanel

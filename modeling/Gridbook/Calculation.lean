import Gridbook.Log

/-!
A long calculation of a project. It waits for the user to accept it and can be cancelled; the status changes only when
the server has agreed.
-/
namespace Gridbook

inductive CalculationStatus where
  | none
  | needAccept
  | accepted
  | cancelled
  deriving DecidableEq

namespace CalculationStatus

def list : List CalculationStatus := [none, needAccept, accepted, cancelled]

def name : CalculationStatus → String
  | none => "none"
  | needAccept => "needAccept"
  | accepted => "accepted"
  | cancelled => "cancelled"

def ofName? (text : String) : Option CalculationStatus := list.find? fun s => s.name = text

end CalculationStatus

inductive CalculationIcon where
  | clockExclamation
  | clockCancel
  deriving DecidableEq

structure Project where
  bucket : String
  path : Option String
  name : String
  deriving DecidableEq

/-- Slashes around a path are left out, and an empty path altogether. -/
def Project.apiPath (project : Project) : String :=
  let trimmed := project.path.map fun path =>
    ((path.toList.dropWhile (· == '/')).reverse.dropWhile (· == '/')).reverse
  let folders := (trimmed.filter fun path => !path.isEmpty).map String.ofList
  "/".intercalate (["files", project.bucket] ++ folders.toList ++ [project.name])

structure Calculation where
  status : CalculationStatus := .none
  canEdit : Bool
  popover : Bool := false
  deriving DecidableEq

/-- A request to the server. -/
inductive CalculationRequest where
  | calculate (path : String)
  | cancel (path : String)
  deriving DecidableEq

def CalculationRequest.text : CalculationRequest → String
  | calculate path => "calculate " ++ path
  | cancel path => "cancel " ++ path

namespace Calculation

/-- A calculation that waits for acceptance opens the popover. -/
def setStatus (calculation : Calculation) (status : CalculationStatus) : Calculation :=
  { calculation with status, popover := status = .needAccept || calculation.popover }

def isVisible (calculation : Calculation) : Bool :=
  calculation.canEdit && (calculation.status = .needAccept || calculation.status = .accepted)

def isPopoverOpen (calculation : Calculation) : Bool :=
  calculation.isVisible && calculation.popover

def icon (calculation : Calculation) : CalculationIcon :=
  if calculation.status = .needAccept then .clockExclamation else .clockCancel

/-- The text of the popover and of its button. -/
def prompt? (calculation : Calculation) : Option (String × String) :=
  match calculation.status with
  | .needAccept => some
    ("Running the project calculation may take a while. " ++
      "Press Accept to keep calculations running in the background.", "Accept long calculation")
  | .accepted => some ("A long calculation is in progress. You can cancel at any time.", "Cancel long calculation")
  | .none | .cancelled => none

/-- Asks the server to go on; `send` tells whether it agreed. -/
def accept [Monad m] [MonadLog m] (calculation : Calculation) (send : CalculationRequest → m Bool)
    (project : Project) : m (Calculation × Bool) := do
  if ← send (.calculate project.apiPath) then return (calculation.setStatus .accepted, true)
  else
    warn ("Calculate request for " ++ project.name ++ " was not accepted")
    return (calculation, false)

/-- Asks the server to stop. -/
def cancel [Monad m] [MonadLog m] (calculation : Calculation) (send : CalculationRequest → m Bool)
    (project : Project) : m (Calculation × Bool) := do
  if ← send (.cancel project.apiPath) then return (calculation.setStatus .cancelled, true)
  else
    warn ("Cancel request for " ++ project.name ++ " was not accepted")
    return (calculation, false)

end Calculation

/-- What passed between a calculation and a server that answers as it is told. -/
structure Exchange where
  sent : List CalculationRequest := []
  log : List LogLine := []
  deriving DecidableEq

abbrev Exchanging := StateM Exchange

instance : MonadLog Exchanging where
  log line := modify fun exchange => { exchange with log := exchange.log ++ [line] }

def Exchange.answer (agreed : Bool) (request : CalculationRequest) : Exchanging Bool := do
  modify fun exchange => { exchange with sent := exchange.sent ++ [request] }
  return agreed

inductive CalculationAction where
  | setStatus (status : CalculationStatus)
  | setCanEdit (on : Bool)
  | setPopover (on : Bool)
  | accept (project : Project) (agreed : Bool)
  | cancel (project : Project) (agreed : Bool)
  deriving DecidableEq

namespace Calculation

/-- The calculation after an action, the server's answer if it was asked, and what passed. -/
def perform (calculation : Calculation) : CalculationAction → Calculation × Option Bool × Exchange
  | .setStatus status => (calculation.setStatus status, none, {})
  | .setCanEdit canEdit => ({ calculation with canEdit }, none, {})
  | .setPopover popover => ({ calculation with popover }, none, {})
  | .accept project agreed => asked (calculation.accept (Exchange.answer agreed) project)
  | .cancel project agreed => asked (calculation.cancel (Exchange.answer agreed) project)
where
  asked (run : Exchanging (Calculation × Bool)) : Calculation × Option Bool × Exchange :=
    let ((next, agreed), exchange) := run {}
    (next, some agreed, exchange)

end Calculation
end Gridbook

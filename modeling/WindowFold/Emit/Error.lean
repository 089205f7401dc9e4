import WindowFold.Expr.Text

/-!
Why code for an aggregate cannot be emitted.
-/

namespace WindowFold

inductive Phase where
  | reset
  | add
  | merge
  | result
  | warmUp
  deriving DecidableEq, Repr

inductive Obstacle where
  | notReset
  | otherNotReset
  | warmedUp
  | partitionSeen
  deriving DecidableEq, Repr

inductive FrameFault where
  | startAfterEnd (first last : Int)
  | currentOutside (current : Int) (first last : Expr)
  | noRows
  | outsidePartition (first last : Expr) (count : Int)
  deriving DecidableEq, Repr

inductive EmitError where
  | unknownFunction (name : String)
  | argumentTypes (name expected : String) (got : List DataType)
  | argumentCount (name : String) (expected got : Nat)
  | slotCount (name : String) (expected got : Nat)
  | foreignSlot (name : String) (slot : SlotId)
  | resultWrites (name : String) (slot : SlotId)
  | mergeMismatch (name other : String) (otherTypes : List DataType)
  | outOfOrder (name : String) (phase : Phase) (obstacle : Obstacle)
  | windowOnly (name : String)
  | unsupported (name : String) (phase : Phase)
  | invalidName (name : String)
  | invalidFrame (fault : FrameFault)
  | failed (message : String)
  deriving DecidableEq, Repr

def Phase.text : Phase → String
  | .reset => "reset"
  | .add => "add"
  | .merge => "merge"
  | .result => "result"
  | .warmUp => "warm-up reset"

def Obstacle.text : Obstacle → String
  | .notReset => "uninitialized"
  | .otherNotReset => "other unit uninitialized"
  | .warmedUp => "already warmed up"
  | .partitionSeen => "partitions already reset"

def FrameFault.text : FrameFault → String
  | .startAfterEnd first last =>
    "frame start " ++ toString first ++ " is after frame end " ++ toString last
  | .currentOutside current first last =>
    "current row " ++ toString current ++ " outside frame [" ++ first.text ++ ", " ++ last.text
      ++ "]"
  | .noRows => "has_rows is true but the partition is empty"
  | .outsidePartition first last count =>
    "frame [" ++ first.text ++ ", " ++ last.text ++ "] outside partition of " ++ toString count
      ++ " row(s)"

def EmitError.message : EmitError → String
  | .unknownFunction name => "aggregate function '" ++ name ++ "' not found"
  | .argumentTypes name expected got =>
    name ++ ": expected " ++ expected ++ ", got " ++ DataType.listText got
  | .argumentCount name expected got =>
    name ++ ": expected " ++ toString expected ++ " argument(s), got " ++ toString got
  | .slotCount name expected got =>
    name ++ ": expected " ++ toString expected ++ " accumulator slot(s), got " ++ toString got
  | .foreignSlot name slot =>
    name ++ ": emitted code references foreign accumulator slot " ++ slot.text
  | .resultWrites name slot => name ++ ": result phase writes accumulator slot " ++ slot.text
  | .mergeMismatch name other types =>
    name ++ ": cannot merge state of differently typed call " ++ other ++ "("
      ++ DataType.listText types ++ ")"
  | .outOfOrder name phase obstacle =>
    name ++ ": cannot run " ++ phase.text ++ " while " ++ obstacle.text
  | .windowOnly name => name ++ " can only be used as a window aggregate"
  | .unsupported name phase => name ++ " does not implement the " ++ phase.text ++ " phase"
  | .invalidName name => "invalid identifier '" ++ name ++ "'"
  | .invalidFrame fault => "invalid window frame: " ++ fault.text
  | .failed message => message

end WindowFold

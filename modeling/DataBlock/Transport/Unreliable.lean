import DataBlock.Transport.Basic
/-!
# Transports that fail

To see how a reader bears with a bad connection, a transport is made to refuse
calls or to spoil its replies.  A refused call does not reach the transport.
-/

namespace DataBlock

inductive Damage where
  | truncate
  | pad
  deriving DecidableEq, Repr

def Damage.apply : Damage → Bytes → Bytes
  | truncate, bytes => bytes.dropLast
  | pad, bytes => bytes ++ [0xAA, 0xBB]

inductive ReadFailure where
  | reject
  | damage (damage : Damage)
  deriving DecidableEq, Repr

inductive ReadManyFailure where
  | reject
  | dropLast
  | addZero
  | dropAll
  | damage (damage : Damage)
  deriving DecidableEq, Repr

def ReadManyFailure.spoil : ReadManyFailure → List Reply → List Reply
  | reject, replies => replies
  | dropLast, replies => replies.dropLast
  | addZero, replies => replies ++ [.ok [0]]
  | dropAll, _ => []
  | damage d, replies => replies.map (·.map d.apply)

/-- The failures of each operation; connecting fails with a reason. -/
structure Failures where
  connect : Option String
  disconnect : Option String
  read : Option ReadFailure
  readMany : Option ReadManyFailure
  deriving DecidableEq, Repr

namespace Transport

variable {σ : Type}

def refuse {α : Type} (reason : String) : StateM σ (Except Error α) :=
  pure (.error (.transport (.other reason)))

def unreliable (t : Transport σ) (failures : Failures) : Transport σ where
  connect := (failures.connect.map refuse).getD t.connect
  disconnect := (failures.disconnect.map refuse).getD t.disconnect
  read block span :=
    match failures.read with
    | none => t.read block span
    | some .reject => refuse "read rejected"
    | some (.damage d) => return (← t.read block span).map d.apply
  readMany spans :=
    match failures.readMany with
    | none => t.readMany spans
    | some .reject => refuse "multi read rejected"
    | some failure => return (← t.readMany spans).map failure.spoil

end Transport

end DataBlock

import DataBlock.Transport.Basic
/-!
# Recording the calls of a transport

A traced transport does what the transport does, and keeps the calls made so
far beside its state.
-/

namespace DataBlock

inductive Call where
  | connect
  | disconnect
  | read (block : UInt16) (span : Span)
  | readMany (spans : List (UInt16 × Span))
  deriving DecidableEq, Repr

namespace Call

def spanText (block : UInt16) (span : Span) : String :=
  "DB" ++ toString block.toNat ++ " " ++ toString span

def render : Call → String
  | connect => "connect"
  | disconnect => "disconnect"
  | read block span => "read " ++ spanText block span
  | readMany spans =>
    "read_many " ++ String.intercalate ", " (spans.map fun (block, span) => spanText block span)

instance : ToString Call := ⟨render⟩

end Call

namespace Transport

/-- An action on a state, with a call added to the calls beside it. -/
def record {σ α : Type} (call : Call) (action : StateM σ α) : StateM (σ × List Call) α :=
  fun (s, calls) =>
    let (a, s) := action s
    (a, s, calls ++ [call])

def traced {σ : Type} (t : Transport σ) : Transport (σ × List Call) where
  connect := record .connect t.connect
  disconnect := record .disconnect t.disconnect
  read block span := record (.read block span) (t.read block span)
  readMany spans := record (.readMany spans) (t.readMany spans)

end Transport

end DataBlock

import DataBlock.CodecError
import DataBlock.Tag.Address
import DataBlock.Text.Blank
import DataBlock.Text.Split
/-!
# Reading addresses

`Tag.parse` reads the address texts that `Tag.address` writes, and others of
the same tags: blanks around the text and leading zeros are ignored.  Types
with an array count are recognized, so that they can be refused by name.
-/

namespace DataBlock.Tag

inductive Refusal where
  | malformed (fault : Fault)
  | unknownType (name : List Char)
  | unsupportedType (spec : List Char)
  deriving DecidableEq, Repr

/-- The error about an address, given without the blanks around it. -/
def Refusal.toError (input : List Char) : Refusal → CodecError
  | malformed fault => .malformedAddress (String.ofList input) fault
  | unknownType name => .unknownType (String.ofList name)
  | unsupportedType spec => .unsupportedType (String.ofList spec)

def orFault {α : Type} (fault : Fault) : Option α → Except Refusal α
  | some a => .ok a
  | none => .error (.malformed fault)

def isBracket (c : Char) : Bool :=
  c = '(' || c = ')' || c = '[' || c = ']'

def checkName (name : List Char) (length : Option (List Char)) :
    Except Refusal (List Char × Option (List Char)) :=
  if name = [] then .error (.malformed .typeMissing)
  else if name.any isBracket then .error (.malformed .bracketUnexpected)
  else .ok (name, length)

def typeOfName (name : List Char) : Except Refusal PlcType :=
  match PlcType.ofName? (String.ofList name) with
  | some type => .ok type
  | none => .error (.unknownType name)

/-- The name of a type and the text of its declared length.  A type followed by
array counts is refused with the text up to the first count. -/
def splitType (spec : List Char) : Except Refusal (List Char × Option (List Char)) :=
  match hclose : Text.dropLast? ']' spec with
  | some inner =>
    match hopen : Text.splitLast? '[' inner with
    | none => .error (.malformed .bracketUnbalanced)
    | some (head, count) =>
      have : head.length < spec.length :=
        Nat.lt_trans (Text.length_lt_of_splitLast? hopen) (Text.length_lt_of_dropLast? hclose)
      if (Text.numeralBelow? UInt32.size count).isNone then .error (.malformed .arrayCount)
      else do
        let (name, _) ← splitType head
        let _ ← typeOfName name
        .error (.unsupportedType spec)
  | none =>
    match Text.dropLast? ')' spec with
    | none => checkName spec none
    | some inner => do
      let (name, length) ← orFault .parenthesisUnbalanced (Text.splitFirst? '(' inner)
      checkName name (some length)
termination_by spec.length

def readBit (type : PlcType) (bit : Option (List Char)) : Except Refusal UInt8 :=
  match bit with
  | some digits =>
    if type = .bool then
      orFault .bitOutOfRange ((Text.numeralBelow? 8 digits).map UInt8.ofNat)
    else .error (.malformed .bitNotBool)
  | none => if type = .bool then .error (.malformed .bitMissing) else .ok 0

def readLength (type : PlcType) (length : Option (List Char)) :
    Except Refusal (Option UInt16) :=
  match type.maxLength?, length with
  | some most, some digits =>
    orFault .lengthOutOfRange <|
      ((Text.numeralBelow? (most.toNat + 1) digits).filter (0 < ·)).map
        fun n => some (UInt16.ofNat n)
  | some _, none => .error (.malformed .lengthMissing)
  | none, some _ => .error (.malformed .lengthNotString)
  | none, none => .ok none

/-- Whether a text is the address of an input, an output or a flag. -/
def isOtherArea : List Char → Bool
  | '%' :: c :: _ => c = 'I' || c = 'Q' || c = 'M'
  | _ => false

def splitLocation (location : List Char) : List Char × Option (List Char) :=
  match Text.splitFirst? '.' location with
  | some (byte, bit) => (byte, some bit)
  | none => (location, none)

/-- The fields of a text without blanks around it. -/
def Fields.read (input : List Char) : Except Refusal Fields := do
  let body ← orFault (if isOtherArea input then .otherArea else .noMarker)
    (Text.dropStart? marker input)
  match body.splitOn ':' with
  | [block, location, spec] =>
    let block ← orFault .blockNumber (Text.numeralBelow? UInt16.size block)
    let (byte, bit) := splitLocation location
    let byte ← orFault .byteOffset (Text.numeralBelow? UInt32.size byte)
    let (name, length) ← splitType spec
    let type ← typeOfName name
    let bit ← readBit type bit
    let length ← readLength type length
    return ⟨UInt16.ofNat block, UInt32.ofNat byte, bit, type, length⟩
  | _ => .error (.malformed .fieldCount)

/-- The tag of fields, or an error that shows the fields. -/
def make (f : Fields) : Except CodecError Tag :=
  (ofFields f).mapError (.malformedAddress f.address)

def parse (address : String) : Except CodecError Tag := do
  let input := Text.trim address.toList
  make (← (Fields.read input).mapError (Refusal.toError input))

end DataBlock.Tag

import DataBlock.Tag.Basic
import DataBlock.Text.Numeral
/-!
# Errors of reading addresses and of decoding

An error is a cause; its wording is in `CodecError.message` alone.
-/

namespace DataBlock

inductive DecodeFault where
  | unpairedSurrogate (unit : UInt16)
  | loneSurrogate (unit : UInt16)
  | dateOutOfRange (days : UInt16)
  | timeOfDayOutOfRange (millis : UInt32)
  /-- A fault found elsewhere, in words of its own. -/
  | other (reason : String)
  deriving DecidableEq, Repr

def DecodeFault.unitText (unit : UInt16) : String :=
  let digits := (Nat.toDigits 16 unit.toNat).map Char.toUpper
  "0x" ++ String.ofList (List.replicate (4 - digits.length) '0' ++ digits)

def DecodeFault.message : DecodeFault → String
  | unpairedSurrogate unit => "unpaired surrogate " ++ unitText unit ++ " in UTF-16 text"
  | loneSurrogate unit => "lone surrogate " ++ unitText unit ++ " in WCHAR"
  | dateOutOfRange days => "DATE out of range: " ++ toString days.toNat ++ " days"
  | timeOfDayOutOfRange millis =>
    "TIME_OF_DAY out of range: " ++ toString millis.toNat ++ "ms"
  | other reason => reason

inductive CodecError where
  | malformedAddress (address : String) (fault : Tag.Fault)
  | unknownType (name : String)
  /-- A type that is known but has no values, such as an array. -/
  | unsupportedType (spec : String)
  | bufferTooShort (required actual : Nat)
  | decode (fault : DecodeFault)
  deriving DecidableEq, Repr

namespace CodecError

def message : CodecError → String
  | malformedAddress address fault =>
    "malformed address `" ++ address ++ "`: " ++ fault.message
  | unknownType name => "unknown plc type `" ++ name ++ "`"
  | unsupportedType spec => "unsupported plc type `" ++ spec ++ "`"
  | bufferTooShort required actual =>
    "buffer too short: " ++ toString required ++ " bytes required, " ++
      toString actual ++ " supplied"
  | decode fault => "decode error: " ++ fault.message

def isParseError : CodecError → Bool
  | malformedAddress .. | unknownType _ | unsupportedType _ => true
  | bufferTooShort .. | decode _ => false

def isDecodeError (e : CodecError) : Bool := !e.isParseError

end CodecError

end DataBlock

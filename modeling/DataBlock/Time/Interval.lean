import DataBlock.Binary.Reading
import DataBlock.Text.Blank
import DataBlock.Text.Split
import DataBlock.Time.Duration
/-!
# Reading durations

A duration is written as a number of milliseconds, or in the form
`PnDTnHnMn.nS` of ISO 8601: whole days, then any components of hours, minutes
and seconds, in any order and as often as wanted, each with a fraction if it
has one.  Letters may be small.  The components are added from left to right.
-/

namespace DataBlock.Time.Duration

inductive Fault where
  | malformed
  /-- The components are well formed, but their sum is out of range. -/
  | overflow
  deriving DecidableEq, Repr

def unitSeconds? (unit : Char) : Option Nat :=
  match unit.toUpper with
  | 'H' => some 3600
  | 'M' => some 60
  | 'S' => some 1
  | _ => none

def component? (number : List Char) (unit : Char) : Option Duration := do
  let x ← Binary.Double.ofText? number
  let factor ← unitSeconds? unit
  ofSeconds? (x.scale factor)

def addComponents (total : Duration) (s : List Char) : Except Fault Duration :=
  match h : s.dropWhile fun c => !c.isAlpha with
  | [] => if s = [] then .ok total else .error .malformed
  | unit :: rest =>
    have : rest.length < s.length := by
      have hsuffix := (List.dropWhile_suffix (l := s) fun c => !c.isAlpha).length_le
      rw [h] at hsuffix
      exact hsuffix
    match component? (s.takeWhile fun c => !c.isAlpha) unit with
    | none => .error .malformed
    | some part =>
      match total.add? part with
      | none => .error .overflow
      | some total => addComponents total rest
termination_by s.length

/-- The duration of the days before the mark `T`. -/
def ofDays? (s : List Char) : Option Duration := do
  let digits ← (Text.dropLast? 'D' s).or (Text.dropLast? 'd' s)
  let days ← Text.natural? UInt64.size digits
  ofNanos? (days * 86400 * 1_000_000_000)

/-- The duration of what follows the mark `P`. -/
def ofPeriod (s : List Char) : Except Fault Duration :=
  let days := s.takeWhile fun c => c != 'T' && c != 't'
  let time := s.dropWhile fun c => c != 'T' && c != 't'
  if time.length = 1 ∨ days = [] ∧ time = [] then .error .malformed
  else
    match if days = [] then some zero else ofDays? days with
    | none => .error .malformed
    | some total => addComponents total (time.drop 1)

def ofText (s : List Char) : Except Fault Duration :=
  let s := Text.trim s
  match Text.natural? UInt64.size s with
  | some millis => .ok (ofMillis (UInt64.ofNat millis))
  | none =>
    match s with
    | mark :: rest =>
      if mark = 'P' ∨ mark = 'p' then ofPeriod rest else .error .malformed
    | [] => .error .malformed

end DataBlock.Time.Duration

import ImcGem5.Base.IniFile
import Mathlib.Data.Int.Order.Basic

/-! Parameters in a checkpoint, as sim/serialize.hh writes them to text and reads them back. -/

namespace ImcGem5.Sim
open Lib Base

structure IntType where
  signed : Bool
  bits : Nat
  deriving DecidableEq, Repr

namespace IntType

def values (bits : Nat) : Int := (2 ^ bits : Nat)

def lowest (type : IntType) : Int := if type.signed then -values (type.bits - 1) else 0

def max (type : IntType) : Int := if type.signed then values (type.bits - 1) - 1 else values type.bits - 1

def longLong : IntType := ⟨true, 64⟩

end IntType

def digitIn (base : Nat) (c : Char) : Option Nat :=
  let value :=
    if '0' ≤ c ∧ c ≤ '9' then c.toNat - '0'.toNat
    else if 'a' ≤ c ∧ c ≤ 'z' then c.toNat - 'a'.toNat + 10
    else if 'A' ≤ c ∧ c ≤ 'Z' then c.toNat - 'A'.toNat + 10
    else base
  if value < base then some value else none

def digitsIn (base : Nat) (s : Text) : Option Nat :=
  match s.takeWhile fun c => (digitIn base c).isSome with
  | [] => none
  | digits => some (digits.foldl (fun number c => number * base + (digitIn base c).getD 0) 0)

def strtol (s : Text) : Option (Bool × Nat) :=
  let s := s.dropWhile isSpace
  let (negative, s) :=
    match s with
    | '-' :: rest => (true, rest)
    | '+' :: rest => (false, rest)
    | _ => (false, s)
  let magnitude :=
    match s with
    | '0' :: 'x' :: rest | '0' :: 'X' :: rest => some ((digitsIn 16 rest).getD 0)
    | '0' :: _ => digitsIn 8 s
    | _ => digitsIn 10 s
  magnitude.map (negative, ·)

/-- std::stoll, nothing for the exceptions it throws. -/
def stoll (s : Text) : Option Int := do
  let (negative, magnitude) ← strtol s
  let number : Int := if negative then -magnitude else magnitude
  guard (IntType.longLong.lowest ≤ number ∧ number ≤ IntType.longLong.max)
  return number

/-- std::stoull negates modulo the width. -/
def stoull (s : Text) : Option Int := do
  let (negative, magnitude) ← strtol s
  guard (magnitude < 2 ^ 64)
  return if negative then (-(magnitude : Int)) % IntType.values 64 else magnitude

/-- to_number of an integral type. -/
def toNumber (type : IntType) (value : Text) : Option Int := do
  guard ('e' ∉ value)
  if type.signed then
    let r ← stoll value
    guard (type.lowest ≤ r ∧ r ≤ type.max)
    return r
  else
    let r ← stoull value
    guard (r ≤ type.max)
    return r

def toBool (value : Text) : Option Bool :=
  let s := value.map Char.toLower
  if s == "true".toList then some true else if s == "false".toList then some false else none

def decimal (value : Int) : Text :=
  if value < 0 then '-' :: Nat.toDigits 10 value.natAbs else Nat.toDigits 10 value.natAbs

/-- ShowParam and ParseParam of one type. -/
structure Handler (T : Type) where
  shown : T → Text
  parse : Text → Option T

namespace Handler

/-- Characters are shown as numbers, too. -/
def integer (type : IntType) : Handler Int := ⟨decimal, toNumber type⟩

def boolean : Handler Bool := ⟨fun value => if value then "true".toList else "false".toList, toBool⟩

def string : Handler Text := ⟨id, some⟩

end Handler

section
variable {T : Type} (handler : Handler T)

def paramOut (name : Text) (param : T) : Text := name ++ '=' :: handler.shown param ++ ['\n']

def arrayParamOut (name : Text) (param : List T) : Text :=
  name ++ '=' :: (match param with
    | [] => []
    | first :: rest => handler.shown first ++ rest.flatMap fun value => ' ' :: handler.shown value) ++ ['\n']

def paramIn (cp : IniFile) (currentSection name : Text) : Except Fault T :=
  match cp.find currentSection name >>= handler.parse with
  | some param => .ok param
  | none => .error (.panic "Can't unserialize '%s:%s'")

/-- With the size of an array, or none for a vector. -/
def arrayParamIn (cp : IniFile) (currentSection name : Text) (fixedSize : Option Nat) : Except Fault (List T) :=
  match cp.find currentSection name with
  | none => .error (.panic "Can't unserialize '%s:%s'.")
  | some str =>
    let tokens := tokenize str ' '
    if fixedSize.any (tokens.length != ·) then .error (.panic "Array size mismatch on %s:%s (Got %u, expected %u)'\n")
    else tokens.mapM fun token =>
      match handler.parse token with
      | some value => .ok value
      | none => .error (.panic "Could not parse \"%s\".")

end

inductive Param where
  | integer (type : IntType) (value : Int)
  | boolean (value : Bool)
  | string (value : Text)
  | integers (type : IntType) (values : List Int)
  | booleans (values : List Bool)
  deriving DecidableEq, Repr

def Param.out (name : Text) : Param → Text
  | .integer type value => paramOut (.integer type) name value
  | .boolean value => paramOut .boolean name value
  | .string value => paramOut .string name value
  | .integers type values => arrayParamOut (.integer type) name values
  | .booleans values => arrayParamOut .boolean name values

/-- A section of a checkpoint, as ScopedCheckpointSection starts it, with its parameters. -/
structure CheckpointSection where
  path : Text
  params : List (Text × Param)

namespace CheckpointSection

def nameOut (sec : CheckpointSection) : Text := "\n[".toList ++ sec.path ++ "]\n".toList

def out (sec : CheckpointSection) : Text := sec.nameOut ++ sec.params.flatMap fun (name, param) => param.out name

end CheckpointSection

/-- generateCheckpointOut, with the time of ctime, and the sections. -/
def checkpointOut (time : Text) (sections : List CheckpointSection) : Text :=
  "## checkpoint generated: ".toList ++ time ++ '\n' :: sections.flatMap CheckpointSection.out

end ImcGem5.Sim

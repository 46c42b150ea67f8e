import ImcGem5.Lib.Heap
import Mathlib.Data.List.DropRight

/-! The .ini files of base/inifile.cc and the string functions they need. A text is the list
of its characters; the hash tables of sections and entries are functions. -/

namespace ImcGem5.Base
open Lib

abbrev Text := List Char

def isSpace (c : Char) : Bool :=
  c == ' ' || c == '\t' || c == '\n' || c == '\x0b' || c == '\x0c' || c == '\r'

/-- A text of blanks only stays as it is. -/
def eatLeadWhite (s : Text) : Text :=
  match s.dropWhile (· == ' ') with
  | [] => s
  | rest => rest

def eatEndWhite (s : Text) : Text :=
  match s.rdropWhile (· == ' ') with
  | [] => s
  | rest => rest

def eatWhite (s : Text) : Text := eatEndWhite (eatLeadWhite s)

/-- The loop of tokenize from the first character of a token on. -/
def tokensFrom (token : Char) : Nat → Text → List Text
  | 0, _ => []
  | turns + 1, s =>
    match s.span (· != token) with
    | (word, []) => [word]
    | (word, _ :: after) =>
      match after.dropWhile (· == token) with
      | [] => [word]
      | rest => word :: tokensFrom token turns rest

/-- With `ignore`, its default, which skips empty tokens. -/
def tokenize (s : Text) (token : Char) : List Text :=
  match s with
  | [] => []
  | first :: _ =>
    if first == token then
      match s.dropWhile (· == token) with
      | [] => []
      | rest => tokensFrom token s.length rest
    else tokensFrom token s.length s

namespace IniFile

abbrev Section := Text → Option Text

namespace Section

/-- A value is appended to an old one after a blank. -/
def addEntry (table : Section) (entryName value : Text) (append : Bool) : Section :=
  match table entryName with
  | none => Function.update table entryName (some value)
  | some old => Function.update table entryName (some (if append then old ++ ' ' :: value else value))

/-- The section after an assignment, and nothing when the line has no '='. Looking for a '+'
before a leading '=' reads outside the line. -/
def add (table : Section) (assignment : Text) : Except Fault (Option Section) :=
  match assignment.findIdx? (· == '=') with
  | none => return none
  | some 0 => .error .wild
  | some (before + 1) =>
    let append := assignment[before]? == some '+'
    let entryName := assignment.take (if append then before else before + 1)
    let value := assignment.drop (before + 2)
    return some (table.addEntry (eatWhite entryName) (eatWhite value) append)

end Section

end IniFile

abbrev IniFile := Text → Option IniFile.Section

namespace IniFile

def empty : IniFile := fun _ => none

def addSection (db : IniFile) (sectionName : Text) : IniFile :=
  match db sectionName with
  | some _ => db
  | none => Function.update db sectionName (some fun _ => none)

/-- One line of load, in the section of the last header. The result is nothing when the line
cannot be parsed. -/
def addLine (db : IniFile) (current : Option Text) (line : Text) : Except Fault (Option (IniFile × Option Text)) :=
  let line := eatEndWhite line
  if line.head? == some '[' && line.getLast? == some ']' then
    let sectionName := eatWhite (line.tail.take (line.length - 2))
    return some (db.addSection sectionName, some sectionName)
  else
    match current with
    | none => return some (db, none)
    | some name =>
      match db name with
      | none => .error .wild
      | some table => do
        match ← table.add line with
        | none => return none
        | some table => return some (Function.update db name (some table), current)

/-- The loop of load. A turn takes at least one character of the file. -/
def loadFrom : Nat → IniFile → Option Text → Text → Except Fault (IniFile × Bool)
  | 0, _, _, _ => .error .stuck
  | turns + 1, db, current, f =>
    match f.dropWhile isSpace with
    | [] => return (db, true)
    | rest => do
      let (line, after) := rest.span (· != '\n')
      match ← db.addLine current line with
      | none => return (db, false)
      | some (db, current) => loadFrom turns db current after.tail

def load (db : IniFile) (f : Text) : Except Fault (IniFile × Bool) := db.loadFrom (f.length + 1) none f

def find (db : IniFile) (sectionName entryName : Text) : Option Text := do (← db sectionName) entryName

end IniFile

end ImcGem5.Base

import Mathlib.Data.List.DropRight
import Nazg.Lib.Variables
import Nazg.Lib.Words

/-!
# Configuration files

`config::store` reads sections of keys and values, one to a line, and hands the values out by
section and key. `expand_env_vars` stands beside it for whoever wants the references to the
environment in a value replaced.

A store has no logger here: lines that cannot be read are passed over.
-/

namespace Nazg.Config

open Lib

/-- The values of a store by section and key. -/
abbrev Data := Bytes → Bytes → Option Bytes

def Data.set (data : Data) (sec key value : Bytes) : Data :=
  fun s k => if s = sec ∧ k = key then some value else data s k

namespace Store

/-! ## Lines -/

def isLineBlank (c : UInt8) : Bool := c = 32 || c = 9 || c = 13 || c = 10

def isBlank (c : UInt8) : Bool := c = 32 || c = 9

/-- `find_first_not_of` and `find_last_not_of` with the `substr` between them. -/
def trim (p : UInt8 → Bool) (s : Bytes) : Bytes := (s.dropWhile p).rdropWhile p

/-- What a line does. -/
inductive Line where
  | nothing
  | header (name : Bytes)
  | entry (key value : Bytes)

/-- The name between the brackets; blanks alone are a name too. -/
def sectionName (inner : Bytes) : Bytes :=
  if trim isBlank inner = [] then inner else trim isBlank inner

/-- A value without the quotes around it. -/
def unquote (value : Bytes) : Bytes :=
  if 2 ≤ value.length ∧ (value.head? = some 34 ∧ value.getLast? = some 34 ∨
      value.head? = some 39 ∧ value.getLast? = some 39) then
    (value.drop 1).dropLast
  else value

def readLine (raw : Bytes) : Line :=
  let line := trim isLineBlank raw
  if line = [] ∨ line.head? = some 35 then .nothing
  else if line.head? = some openBracket ∧ line.getLast? = some closeBracket then
    .header (sectionName ((line.drop 1).dropLast))
  else if 61 ∈ line then
    .entry (trim isBlank (line.takeWhile (· ≠ 61)))
      (unquote (trim isBlank ((line.dropWhile (· ≠ 61)).drop 1)))
  else .nothing

/-! ## Loading -/

/-- `load` goes through the lines with the section it is in. -/
structure Loading where
  currentSection : Bytes
  data : Data

def Loading.step (l : Loading) (raw : Bytes) : Loading :=
  match readLine raw with
  | .nothing => l
  | .header name => { l with currentSection := name }
  | .entry key value =>
      if l.currentSection = [] then l
      else { l with data := l.data.set l.currentSection key value }

/-- `load`, of the text of the file; a file that is missing or cannot be opened holds
nothing. -/
def load (text : Option Bytes) : Data :=
  match text with
  | none => fun _ _ => none
  | some text =>
      ((getFields 10 text).foldl Loading.step { currentSection := [], data := fun _ _ => none }).data

/-- `reload`, which forgets what was loaded before. -/
def reload (_ : Data) (text : Option Bytes) : Data := load text

def has (data : Data) (sec key : Bytes) : Bool := (data sec key).isSome

def getString (data : Data) (sec key default : Bytes) : Bytes := (data sec key).getD default

/-! ## What a text assigns -/

structure Entry where
  sec : Bytes
  key : Bytes
  value : Bytes

/-- The assignments of a text in their order. -/
def entriesFrom : Bytes → List Bytes → List Entry
  | _, [] => []
  | sec, raw :: lines =>
      match readLine raw with
      | .nothing => entriesFrom sec lines
      | .header name => entriesFrom name lines
      | .entry key value =>
          if sec = [] then entriesFrom sec lines
          else ⟨sec, key, value⟩ :: entriesFrom sec lines

def entries (text : Bytes) : List Entry := entriesFrom [] (getFields 10 text)

/-- The value a key has in a text is the one assigned last. -/
def valueOf (text sec key : Bytes) : Option Bytes :=
  ((entries text).findRev? fun e => e.sec = sec ∧ e.key = key).map Entry.value

end Store

end Nazg.Config

/-!
## `expand_env_vars`

The references of one regular expression are replaced from left to right,

    \$\{([^}:]+)(?::-([^}]+))?\}|\$([A-Za-z_][A-Za-z0-9_]*)

and the search goes on behind each match. Neither part of a reference in braces can be
matched in two ways, so the expression is read without backtracking. A fallback ends with the
next brace and goes out as it is, whatever it refers to itself.
-/

namespace Nazg.Config

open Lib Variables

/-- The first alternative, behind `${`. -/
def matchBraced (s : Bytes) : Option Reference :=
  let name := s.takeWhile isBracedNameChar
  if name = [] then none
  else
    match s.dropWhile isBracedNameChar with
    | [] => none
    | c :: rest =>
        if c = closeBrace then some ⟨name, none, rest⟩
        else
          match rest with
          | [] => none
          | d :: rest =>
              if d = 45 then
                let fallback := rest.takeWhile (· ≠ closeBrace)
                match rest.dropWhile (· ≠ closeBrace) with
                | [] => none
                | _ :: rest => if fallback = [] then none else some ⟨name, some fallback, rest⟩
              else none

/-- A match at the beginning of a text. -/
def matchEnv : Bytes → Option Reference
  | c :: d :: s =>
      if c = dollar then
        if d = openBrace then matchBraced s else readNamed (d :: s)
      else none
  | _ => none

/-- What is put for a match; `getenv` reads the name as a C string. -/
def envValue (env : Bytes → Option Bytes) (r : Reference) : Bytes :=
  (env (cstr r.name)).getD (r.fallback.getD [])

/-- `inside` counts the characters of the last match still to come. -/
def expandEnvVarsFrom (env : Bytes → Option Bytes) : Nat → Bytes → Bytes
  | _, [] => []
  | inside + 1, _ :: s => expandEnvVarsFrom env inside s
  | 0, c :: s =>
      match matchEnv (c :: s) with
      | some r => envValue env r ++ expandEnvVarsFrom env (s.length - r.rest.length) s
      | none => c :: expandEnvVarsFrom env 0 s

def expandEnvVars (env : Bytes → Option Bytes) (input : Bytes) : Bytes :=
  expandEnvVarsFrom env 0 input

/-- The path of the database, as `nexus::Config::from_config` takes it from a store. -/
def dbPath (env : Bytes → Option Bytes) (data : Data) (default : Bytes) : Bytes :=
  if Store.has data (bytes "nexus") (bytes "db_path") then
    expandEnvVars env (Store.getString data (bytes "nexus") (bytes "db_path") [])
  else default

end Nazg.Config

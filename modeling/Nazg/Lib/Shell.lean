import Nazg.Lib.Bytes

/-!
# How a shell reads a command line

The token and quoting rules of the POSIX shell. A command line is read byte by byte into
words, operators and the numbers in front of redirections, and a word remembers which of
its characters were quoted, since only the others are looked at again: a tilde in front,
the pattern characters, the reserved words and assignments where a command begins.

What a text means is settled by the text alone or not at all. There is no reading of one
that has a dollar sign or a backquote outside of single quotes, an open quote, a pattern or
a tilde: what becomes of these depends on variables, commands and files. Here-documents are
not read.
-/

namespace Nazg.Lib.Shell

/-! ## Tokens -/

structure Piece where
  quoted : Bool
  char : UInt8
  deriving DecidableEq

abbrev Word := List Piece

inductive Token where
  | word (w : Word)
  | op (o : Bytes)
  | ioNumber (n : Bytes)
  deriving DecidableEq

/-- Characters that no quote protects, and characters that one does. -/
def bare (s : Bytes) : Word := s.map (⟨false, ·⟩)

def quoted (s : Bytes) : Word := s.map (⟨true, ·⟩)

def chars (w : Word) : Bytes := w.map Piece.char

def isBlank (c : UInt8) : Bool := c = 32 || c = 9

/-- `&`, `|`, `;`, `<`, `>` and the parentheses. -/
def isOperatorChar (c : UInt8) : Bool := [38, 124, 59, 60, 62, 40, 41].contains c

/-- What begins an expansion, or is unspecified: a dollar sign or a backquote. -/
def isExpansion (c : UInt8) : Bool := c = 36 || c = 96

def isShellDigit (c : UInt8) : Bool := 48 ≤ c && c ≤ 57

/-- All prefixes of an operator are operators. -/
def operators : List Bytes :=
  [bytes "&", bytes "&&", bytes "|", bytes "||", bytes ";", bytes ";;", bytes "<", bytes "<<",
    bytes "<<-", bytes "<&", bytes "<>", bytes ">", bytes ">>", bytes ">&", bytes ">|", bytes "(",
    bytes ")"]

/-! ## Reading tokens -/

inductive Mode where
  | bare
  | escaped
  | single
  | double
  | doubleEscaped
  | comment
  | operator (o : Bytes)
  deriving DecidableEq

/-- A word that has begun ends. -/
def flush : Option Word → List Token
  | none => []
  | some w => [.word w]

/-- A word that ends at an operator is the number of a redirection if it has only digits. -/
def flushAt (c : UInt8) : Option Word → List Token
  | none => []
  | some w =>
      if (c = 60 ∨ c = 62) ∧ w ≠ [] ∧ w.all fun p => !p.quoted && isShellDigit p.char then
        [.ioNumber (chars w)]
      else [.word w]

/-- The word, begun if need be, goes on. -/
def extend (cur : Option Word) (ps : Word) : Option Word := some (cur.getD [] ++ ps)

/-- A character outside of quotes: the tokens it ends, the word it leaves and the mode. -/
def bareStep (cur : Option Word) (c : UInt8) : Option (List Token × Option Word × Mode) :=
  if isBlank c then some (flush cur, none, .bare)
  else if c = 10 then some (flush cur ++ [.op [10]], none, .bare)
  else if c = 39 then some ([], extend cur [], .single)
  else if c = 34 then some ([], extend cur [], .double)
  else if c = 92 then some ([], cur, .escaped)
  else if isExpansion c then none
  else if c = 35 ∧ cur = none then some ([], none, .comment)
  else if isOperatorChar c then some (flushAt c cur, none, .operator [c])
  else some ([], extend cur [⟨false, c⟩], .bare)

def step (cur : Option Word) : Mode → UInt8 → Option (List Token × Option Word × Mode)
  | .bare, c => bareStep cur c
  | .escaped, c =>
      -- a line that goes on
      if c = 10 then some ([], cur, .bare) else some ([], extend cur [⟨true, c⟩], .bare)
  | .single, c =>
      if c = 39 then some ([], cur, .bare) else some ([], extend cur [⟨true, c⟩], .single)
  | .double, c =>
      if c = 34 then some ([], cur, .bare)
      else if c = 92 then some ([], cur, .doubleEscaped)
      else if isExpansion c then none
      else some ([], extend cur [⟨true, c⟩], .double)
  | .doubleEscaped, c =>
      if c = 10 then some ([], cur, .double)
      else if isExpansion c ∨ c = 34 ∨ c = 92 then some ([], extend cur [⟨true, c⟩], .double)
      else some ([], extend cur [⟨true, 92⟩, ⟨true, c⟩], .double)
  | .comment, c => if c = 10 then bareStep none c else some ([], none, .comment)
  | .operator o, c =>
      if o ++ [c] ∈ operators then some ([], none, .operator (o ++ [c]))
      else (bareStep none c).map fun r => (.op o :: r.1, r.2)

def finish (cur : Option Word) : Mode → Option (List Token)
  | .bare | .comment => some (flush cur)
  | .operator o => some [.op o]
  | .escaped | .single | .double | .doubleEscaped => none

def tokens : Option Word → Mode → Bytes → Option (List Token)
  | cur, m, [] => finish cur m
  | cur, m, c :: s =>
      (step cur m c).bind fun r => (tokens r.2.1 r.2.2 s).map (r.1 ++ ·)

def lex (s : Bytes) : Option (List Token) := tokens none .bare s

/-! ## Reading words -/

/-- A bracket that this closes. -/
def closes (w : Word) : Bool :=
  let w := if w.head? = some ⟨false, 33⟩ then w.tail else w
  ((w.takeWhile fun p => p.char ≠ 47).drop 1).contains ⟨false, 93⟩

/-- Pathname expansion can make something else of the word. -/
def isPattern : Word → Bool
  | [] => false
  | p :: w =>
      p = ⟨false, 42⟩ || p = ⟨false, 63⟩ || (p = ⟨false, 91⟩ && closes w) || isPattern w

/-- The text of a word that nothing else is made of. -/
def literal (w : Word) : Option Bytes :=
  if w.head? = some ⟨false, 126⟩ ∨ isPattern w then none else some (chars w)

def reservedWords : List Bytes :=
  [bytes "!", bytes "\x7b", bytes "\x7d", bytes "case", bytes "do", bytes "done", bytes "elif",
    bytes "else", bytes "esac", bytes "fi", bytes "for", bytes "if", bytes "in", bytes "then",
    bytes "until", bytes "while"]

def isNameByte (c : UInt8) : Bool :=
  isShellDigit c || (65 ≤ c && c ≤ 90) || (97 ≤ c && c ≤ 122) || c = 95

/-- `name=value`. -/
def isAssignment (w : Word) : Bool :=
  let name := w.takeWhile fun p => p ≠ ⟨false, 61⟩
  name.length < w.length && name ≠ [] && (name.all fun p => !p.quoted && isNameByte p.char) &&
    !(name.head?.any fun p => isShellDigit p.char)

/-- What is not the name of a command where one is due. -/
def isKeyword (w : Word) : Bool :=
  reservedWords.any (fun r => w = bare r) || isAssignment w

inductive Item where
  | word (s : Bytes)
  | op (o : Bytes)
  | ioNumber (n : Bytes)
  deriving DecidableEq

def isRedirection (o : Bytes) : Bool := o.head? = some 60 || o.head? = some 62

/-- What the words of a line stand for; `due` says that a command may begin, `target` that
the word is where a redirection goes. -/
def read : Bool → Bool → List Token → Option (List Item)
  | _, _, [] => some []
  | due, target, .word w :: ts =>
      if due ∧ ¬ target ∧ isKeyword w then none
      else (literal w).bind fun s => (read (due && target) false ts).map (.word s :: ·)
  | due, target, .ioNumber n :: ts => (read due target ts).map (.ioNumber n :: ·)
  | due, _, .op o :: ts =>
      (if isRedirection o then read due true ts else read true false ts).map (.op o :: ·)

/-- What a command line says, if the text settles it. -/
def parse (s : Bytes) : Option (List Item) := (lex s).bind (read true false)

end Nazg.Lib.Shell

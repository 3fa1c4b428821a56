import Mathlib.Logic.Function.Basic
import Nazg.Lib.Hex
import Nazg.Lib.Words

/-!
# Regular expressions in the syntax of ECMAScript

`std::regex` with `icase`, and whether `std::regex_search` finds a match. A pattern is cut into
tokens, which a stack of open groups puts together. An expression is matched with backtracking:
`ways` lists the ways to match it at a place in the order in which they are tried, each with
what the groups have captured.

Letters are those of the C locale. A brace or a bracket that closes nothing is an error, as the
grammar has it, and so is the name of a collating element.

The dot is the one special character that leaves a pattern easy to read: such a pattern is
found in a text where a piece of the text looks like it (`search_eq_some_true`).
-/

namespace Nazg.Lib.EcmaScript

/-! ## Characters -/

abbrev CharSet := UInt8 → Bool

def isUpper (c : UInt8) : Bool := 65 ≤ c && c ≤ 90

def isLower (c : UInt8) : Bool := 97 ≤ c && c ≤ 122

def isAlpha (c : UInt8) : Bool := isUpper c || isLower c

def isWordChar (c : UInt8) : Bool := isAlpha c || isDigit c || c = 95

def isHex (c : UInt8) : Bool := (hexValue c).isSome

def upperByte (c : UInt8) : UInt8 := if isLower c then c - 32 else c

/-- What `.` stands for. -/
def isNoLineEnd (c : UInt8) : Bool := c ≠ 10 && c ≠ 13

/-- A character, in either case. -/
def literal (c : UInt8) : CharSet := fun d => lowerByte d = lowerByte c

/-- The characters of a set, in either case. -/
def ignoringCase (p : CharSet) : CharSet := fun c => p c || p (lowerByte c) || p (upperByte c)

/-- `[:name:]`. -/
def classNames : List (Bytes × CharSet) :=
  [(bytes "alnum", fun c => isAlpha c || isDigit c), (bytes "alpha", isAlpha),
    (bytes "blank", fun c => c = 32 || c = 9), (bytes "cntrl", fun c => c < 32 || c = 127),
    (bytes "digit", isDigit), (bytes "graph", fun c => 33 ≤ c && c ≤ 126),
    (bytes "lower", isLower), (bytes "print", fun c => 32 ≤ c && c ≤ 126),
    (bytes "punct", isPunct), (bytes "space", isSpace), (bytes "upper", isUpper),
    (bytes "xdigit", isHex), (bytes "d", isDigit), (bytes "s", isSpace), (bytes "w", isWordChar)]

/-- The characters with a meaning of their own. -/
def special : Bytes := bytes "^$\\.*+?()[]\x7b\x7d|"

abbrev dot : UInt8 := 46

/-! ## Matching -/

inductive Node where
  | empty
  | char (p : CharSet)
  | seq (a b : Node)
  | alt (a b : Node)
  | group (number : Nat) (a : Node)
  /-- A quantifier of an atom whose groups come after the first `lo` and among the first `hi`. -/
  | again (a : Node) (min : Nat) (max : Option Nat) (greedy : Bool) (lo hi : Nat)
  | backref (number : Nat)
  | atBegin
  | atEnd
  | wordBoundary (there : Bool)
  | ahead (there : Bool) (a : Node)

/-- A place in a text, what is before it backwards, and what the groups have captured. -/
structure Place where
  before : Bytes
  rest : Bytes
  captures : Nat → Option Bytes

def Place.skip (x : Place) (n : Nat) : Place :=
  { x with before := (x.rest.take n).reverse ++ x.before, rest := x.rest.drop n }

def Place.isWordBoundary (x : Place) : Bool :=
  x.before.head?.any isWordChar != x.rest.head?.any isWordChar

/-- A quantifier, its atom matched by `step`. The fuel is as many times as it can be. -/
def iterate (step : Place → List Place) (greedy : Bool) (lo hi : Nat) :
    Nat → Nat → Option Nat → Place → List Place
  | 0, _, _, x => [x]
  | fuel + 1, min, max, x =>
      if max = some 0 then [x]
      else
        -- each time the groups inside start anew
        let fresh := { x with captures := fun n => if lo < n ∧ n ≤ hi then none else x.captures n }
        -- what need not be matched again is not matched without taking something
        let once := (step fresh).filter fun y => 0 < min || y.rest.length < x.rest.length
        let more := once.flatMap (iterate step greedy lo hi fuel (min - 1) (max.map (· - 1)))
        if 0 < min then more else if greedy then more ++ [x] else x :: more

/-- The ways to match an expression at a place. -/
def ways : Node → Place → List Place
  | .empty, x => [x]
  | .char p, x => if x.rest.head?.any p then [x.skip 1] else []
  | .seq a b, x => (ways a x).flatMap (ways b)
  | .alt a b, x => ways a x ++ ways b x
  | .group number a, x =>
      (ways a x).map fun y =>
        let captured := x.rest.take (x.rest.length - y.rest.length)
        { y with captures := Function.update y.captures number (some captured) }
  | .again a min max greedy lo hi, x =>
      iterate (ways a) greedy lo hi (min + x.rest.length) min max x
  | .backref number, x =>
      let captured := (x.captures number).getD []
      if captured.map lowerByte = (x.rest.take captured.length).map lowerByte then
        [x.skip captured.length]
      else []
  | .atBegin, x => if x.before = [] then [x] else []
  | .atEnd, x => if x.rest = [] then [x] else []
  | .wordBoundary there, x => if x.isWordBoundary = there then [x] else []
  | .ahead true a, x => ((ways a x).take 1).map fun y => { x with captures := y.captures }
  | .ahead false a, x => if (ways a x).isEmpty then [x] else []

/-- Whether there is a match behind what is before. -/
def foundBehind (a : Node) (before : Bytes) : Bytes → Bool
  | [] => !(ways a ⟨before, [], fun _ => none⟩).isEmpty
  | c :: s => !(ways a ⟨before, c :: s, fun _ => none⟩).isEmpty || foundBehind a (c :: before) s

/-! ## Tokens -/

inductive GroupKind where
  | capture
  | plain
  | ahead (there : Bool)

inductive Token where
  | atom (a : Node)
  | assertion (a : Node)
  | quantifier (min : Nat) (max : Option Nat) (greedy : Bool)
  | opening (kind : GroupKind)
  | closing
  | bar

/-- What a backslash and what follows stand for. -/
inductive Escape where
  | char (c : UInt8)
  | set (p : CharSet)
  | number (n : Nat)

def Escape.chars : Escape → CharSet
  | char c => fun d => d = c
  | set p => p
  | number _ => fun _ => false

/-- Digits in hexadecimal, whose value must be that of a character. -/
def hexEscape (k : Nat) (s : Bytes) : Option (Escape × Bytes) :=
  match (s.take k).mapM hexValue with
  | none => none
  | some ds =>
      let value := ds.foldl (fun n d => 16 * n + d) 0
      if ds.length = k ∧ value < 256 then some (.char (UInt8.ofNat value), s.drop k) else none

def lexEscape : Bytes → Option (Escape × Bytes)
  | [] => none
  | c :: s =>
      match Char.ofUInt8 c with
      | 'f' => some (.char 12, s)
      | 'n' => some (.char 10, s)
      | 'r' => some (.char 13, s)
      | 't' => some (.char 9, s)
      | 'v' => some (.char 11, s)
      | 'd' => some (.set isDigit, s)
      | 'D' => some (.set fun c => !isDigit c, s)
      | 's' => some (.set isSpace, s)
      | 'S' => some (.set fun c => !isSpace c, s)
      | 'w' => some (.set isWordChar, s)
      | 'W' => some (.set fun c => !isWordChar c, s)
      | 'x' => hexEscape 2 s
      | 'u' => hexEscape 4 s
      | 'c' =>
          match s with
          | [] => none
          | d :: s => if isAlpha d then some (.char (d % 32), s) else none
      | '0' => if s.head?.any isDigit then none else some (.number 0, s)
      | _ =>
          if isDigit c then
            some (.number (digitsValue (c :: s.takeWhile isDigit)), s.dropWhile isDigit)
          else if isWordChar c then none
          else some (.char c, s)

/-- What is in front of `d]`. -/
def lexBracketName (d : UInt8) : Bytes → Option (Bytes × Bytes)
  | [] => none
  | c :: s =>
      if c = d ∧ s.head? = some closeBracket then some ([], s.tail)
      else (lexBracketName d s).map fun x => (c :: x.1, x.2)

/-- `[:name:]`, `[.c.]` or `[=c=]` behind its bracket, if it is one of them. -/
def lexBracketed (s : Bytes) : Option (Escape × Bytes) :=
  match s with
  | [] => some (.char openBracket, s)
  | d :: rest =>
      match Char.ofUInt8 d with
      | ':' =>
          (lexBracketName d rest).bind fun x =>
            (classNames.find? fun e => e.1 = x.1.map lowerByte).map fun e => (.set e.2, x.2)
      | '.' | '=' =>
          (lexBracketName d rest).bind fun x =>
            match x.1 with
            | [c] => some (.char c, x.2)
            | _ => none
      | _ => some (.char openBracket, s)

def lexClassAtom : Bytes → Option (Escape × Bytes)
  | [] => none
  | c :: s =>
      if c = openBracket then lexBracketed s
      else if c ≠ backslash then some (.char c, s)
      -- `\b` is the backspace here
      else if s.head? = some 98 then some (.char 8, s.tail)
      else
        match lexEscape s with
        | some (.number n, s) => if n = 0 then some (.char 0, s) else none
        | other => other

/-- The members of a class up to its bracket. -/
def lexClass : Nat → CharSet → Bytes → Option (CharSet × Bytes)
  | 0, _, _ => none
  | fuel + 1, p, s =>
      if s.head? = some closeBracket then some (p, s.tail)
      else
        match lexClassAtom s with
        | none => none
        | some (a, s) =>
            match s with
            | 45 :: d :: rest =>
                -- a dash at the end is a member
                if d = closeBracket then lexClass fuel (fun c => p c || a.chars c) s
                else
                  match a, lexClassAtom (d :: rest) with
                  | .char lo, some (.char hi, s) =>
                      if hi < lo then none
                      else lexClass fuel (fun c => p c || lo ≤ c && c ≤ hi) s
                  | _, _ => none
            | _ => lexClass fuel (fun c => p c || a.chars c) s

/-- `{n}`, `{n,}` or `{n,m}` behind its brace. -/
def lexBraces (s : Bytes) : Option (Nat × Option Nat × Bytes) :=
  let min := digitsValue (s.takeWhile isDigit)
  if !s.head?.any isDigit then none
  else
    match s.dropWhile isDigit with
    | 125 :: s => some (min, some min, s)
    | 44 :: 125 :: s => some (min, none, s)
    | 44 :: s =>
        match s.dropWhile isDigit with
        | 125 :: rest =>
            let max := digitsValue (s.takeWhile isDigit)
            if max < min then none else some (min, some max, rest)
        | _ => none
    | _ => none

def quantified (min : Nat) (max : Option Nat) (s : Bytes) : Option (Token × Bytes) :=
  if s.head? = some 63 then some (.quantifier min max false, s.tail)
  else some (.quantifier min max true, s)

/-- The token that begins with a character, and the rest behind it. -/
def lex (c : UInt8) (s : Bytes) : Option (Token × Bytes) :=
  if c ∉ special then some (.atom (.char (literal c)), s)
  else
    match Char.ofUInt8 c with
    | '.' => some (.atom (.char isNoLineEnd), s)
    | '^' => some (.assertion .atBegin, s)
    | '$' => some (.assertion .atEnd, s)
    | '*' => quantified 0 none s
    | '+' => quantified 1 none s
    | '?' => quantified 0 (some 1) s
    | '{' => (lexBraces s).bind fun x => quantified x.1 x.2.1 x.2.2
    | '|' => some (.bar, s)
    | ')' => some (.closing, s)
    | '(' =>
        match s with
        | 63 :: 58 :: s => some (.opening .plain, s)
        | 63 :: 61 :: s => some (.opening (.ahead true), s)
        | 63 :: 33 :: s => some (.opening (.ahead false), s)
        | 63 :: _ => none
        | _ => some (.opening .capture, s)
    | '[' =>
        match s with
        | 94 :: s =>
            (lexClass (s.length + 1) (fun _ => false) s).map fun x =>
              (.atom (.char fun c => !ignoringCase x.1 c), x.2)
        | _ =>
            (lexClass (s.length + 1) (fun _ => false) s).map fun x =>
              (.atom (.char (ignoringCase x.1)), x.2)
    | '\\' =>
        match s with
        | 98 :: s => some (.assertion (.wordBoundary true), s)
        | 66 :: s => some (.assertion (.wordBoundary false), s)
        | _ =>
            match lexEscape s with
            | none => none
            | some (.number 0, s) => some (.atom (.char (literal 0)), s)
            | some (.number n, s) => some (.atom (.backref n), s)
            | some (a, s) => some (.atom (.char (ignoringCase a.chars)), s)
    | _ => none

/-- The tokens of a pattern; every token takes a character. -/
def tokens : Nat → Bytes → Option (List Token)
  | _, [] => some []
  | 0, _ :: _ => none
  | fuel + 1, c :: s => (lex c s).bind fun x => (tokens fuel x.2).map (x.1 :: ·)

/-! ## Parsing -/

/-- What is open: the alternatives that are complete, the terms of the one that is not, and
its last atom as long as it can be quantified, with the number of groups in front of it. -/
structure Group where
  kind : GroupKind
  groupsBefore : Nat
  alternatives : Option Node
  terms : Node
  last : Option (Node × Nat)

def Group.begin (kind : GroupKind) (groupsBefore : Nat) : Group :=
  ⟨kind, groupsBefore, none, .empty, none⟩

def Group.sequence (g : Group) : Node :=
  match g.last with
  | none => g.terms
  | some (a, _) => .seq g.terms a

def Group.disjunction (g : Group) : Node :=
  match g.alternatives with
  | none => g.sequence
  | some a => .alt a g.sequence

def Group.pushAtom (g : Group) (a : Node) (groupsBefore : Nat) : Group :=
  { g with terms := g.sequence, last := some (a, groupsBefore) }

def Group.pushTerm (g : Group) (a : Node) : Group :=
  { g with terms := .seq g.sequence a, last := none }

structure Parser where
  current : Group
  outer : List Group
  groups : Nat

def Parser.start : Parser := ⟨.begin .plain 0, [], 0⟩

def Parser.step (x : Parser) : Token → Option Parser
  | .atom a => some { x with current := x.current.pushAtom a x.groups }
  | .assertion a => some { x with current := x.current.pushTerm a }
  | .quantifier min max greedy =>
      match x.current.last with
      | none => none
      | some (a, lo) =>
          let term := Node.seq x.current.terms (.again a min max greedy lo x.groups)
          some { x with current := { x.current with terms := term, last := none } }
  | .opening kind =>
      let groups := match kind with
        | .capture => x.groups + 1
        | _ => x.groups
      some ⟨.begin kind x.groups, x.current :: x.outer, groups⟩
  | .closing =>
      match x.outer with
      | [] => none
      | g :: outer =>
          let a := x.current.disjunction
          let before := x.current.groupsBefore
          match x.current.kind with
          | .capture => some ⟨g.pushAtom (.group (before + 1) a) before, outer, x.groups⟩
          | .plain => some ⟨g.pushAtom a before, outer, x.groups⟩
          | .ahead there => some ⟨g.pushTerm (.ahead there a), outer, x.groups⟩
  | .bar =>
      let g := x.current
      some { x with current := { Group.begin g.kind g.groupsBefore with
        alternatives := some g.disjunction } }

/-- The groups that a token refers to. -/
def Token.backref : Token → Nat
  | .atom (.backref n) => n
  | _ => 0

/-- The expression that a pattern is. -/
def parse (pattern : Bytes) : Option Node :=
  match tokens pattern.length pattern with
  | none => none
  | some ts =>
      match ts.foldlM Parser.step Parser.start with
      | some ⟨g, [], groups⟩ =>
          if ∀ t ∈ ts, t.backref ≤ groups then some g.disjunction else none
      | _ => none

/-- `std::regex_search`: nothing if the pattern is no expression. -/
def search (pattern text : Bytes) : Option Bool :=
  (parse pattern).map fun a => foundBehind a [] text

/-! ## Patterns without special characters but the dot -/

def Plain (pattern : Bytes) : Prop := ∀ c ∈ pattern, c ∈ special → c = dot

instance (pattern : Bytes) : Decidable (Plain pattern) := inferInstanceAs (Decidable (∀ c ∈ _, _))

/-- What a character of such a pattern stands for. -/
def pictured (c : UInt8) : CharSet := if c = dot then isNoLineEnd else literal c

/-- A text that begins with what a pattern looks like. -/
def beginsLike : Bytes → Bytes → Bool
  | [], _ => true
  | _ :: _, [] => false
  | c :: p, d :: s => pictured c d && beginsLike p s

/-- The expression that is read for such a pattern behind another one. -/
def chain (a : Node) (pattern : Bytes) : Node :=
  pattern.foldl (fun a c => .seq a (.char (pictured c))) a

def atoms (pattern : Bytes) : List Token := pattern.map fun c => .atom (.char (pictured c))

theorem lex_plain {c : UInt8} (h : c ∈ special → c = dot) (s : Bytes) :
    lex c s = some (.atom (.char (pictured c)), s) := by
  rw [pictured]
  by_cases hc : c = dot
  · rw [if_pos hc, hc]
    rfl
  · rw [if_neg hc]
    exact if_pos fun hspecial => hc (h hspecial)

theorem tokens_plain {pattern : Bytes} (h : Plain pattern) :
    tokens pattern.length pattern = some (atoms pattern) := by
  induction pattern with
  | nil => rfl
  | cons c p ih =>
      obtain ⟨hc, hp⟩ := List.forall_mem_cons.1 h
      rw [List.length_cons, tokens, lex_plain hc, Option.bind_some, ih hp]
      rfl

theorem foldlM_step_atoms (pattern : Bytes) (x : Parser) :
    ∃ g, (atoms pattern).foldlM Parser.step x = some ⟨g, x.outer, x.groups⟩ ∧
      g.alternatives = x.current.alternatives ∧
      g.sequence = chain x.current.sequence pattern := by
  induction pattern generalizing x with
  | nil => exact ⟨x.current, rfl, rfl, rfl⟩
  | cons c p ih =>
      obtain ⟨g, hfold, halternatives, hsequence⟩ :=
        ih { x with current := x.current.pushAtom (.char (pictured c)) x.groups }
      exact ⟨g, hfold, halternatives, hsequence⟩

theorem parse_plain {pattern : Bytes} (h : Plain pattern) :
    parse pattern = some (chain .empty pattern) := by
  obtain ⟨g, hfold, halternatives, hsequence⟩ := foldlM_step_atoms pattern Parser.start
  have hrefs : ∀ t ∈ atoms pattern, t.backref ≤ Parser.start.groups := by
    intro t ht
    obtain ⟨c, -, rfl⟩ := List.mem_map.1 ht
    exact Nat.le_refl 0
  have hdisjunction : g.disjunction = chain .empty pattern := by
    rw [Group.disjunction, halternatives, hsequence]
    rfl
  rw [parse, tokens_plain h]
  dsimp only
  rw [hfold]
  exact (if_pos hrefs).trans (congrArg some hdisjunction)

theorem Place.skip_zero (x : Place) : x.skip 0 = x := rfl

theorem Place.skip_skip (x : Place) (m n : Nat) : (x.skip m).skip n = x.skip (m + n) := by
  simp [Place.skip, List.take_add, List.append_assoc]

/-- Matched character by character. -/
theorem ways_chain (a : Node) (pattern : Bytes) (x : Place) :
    ways (chain a pattern) x = (ways a x).flatMap fun y =>
      if beginsLike pattern y.rest then [y.skip pattern.length] else [] := by
  induction pattern generalizing a with
  | nil =>
      simp only [beginsLike, if_true, List.length_nil, Place.skip_zero, List.flatMap_singleton']
      rfl
  | cons c p ih =>
      have hchain : chain a (c :: p) = chain (.seq a (.char (pictured c))) p := rfl
      rw [hchain, ih, ways, List.flatMap_assoc]
      congr 1
      funext y
      rw [ways]
      cases hrest : y.rest with
      | nil => rfl
      | cons d s =>
          rw [beginsLike, List.head?_cons, Option.any_some]
          cases pictured c d with
          | false => rfl
          | true =>
              have hskip : (y.skip 1).rest = s := by
                rw [Place.skip, hrest, List.drop_one, List.tail_cons]
              rw [if_pos rfl, List.flatMap_singleton, hskip, Bool.true_and, Place.skip_skip,
                List.length_cons, Nat.add_comm]

theorem foundBehind_chain (pattern before s : Bytes) :
    foundBehind (chain .empty pattern) before s = true ↔
      ∃ t, t <:+ s ∧ beginsLike pattern t = true := by
  have hhere : ∀ before s, (!(ways (chain .empty pattern) ⟨before, s, fun _ => none⟩).isEmpty) =
      beginsLike pattern s := by
    intro before s
    rw [ways_chain, ways, List.flatMap_singleton]
    cases beginsLike pattern s <;> rfl
  induction s generalizing before with
  | nil =>
      rw [foundBehind, hhere]
      simp only [List.suffix_nil, exists_eq_left]
  | cons c s ih =>
      rw [foundBehind, hhere, Bool.or_eq_true]
      simp only [ih, List.suffix_cons_iff, or_and_right, exists_or, exists_eq_left]

/-- A pattern without special characters but the dot is found where a piece of the text looks
like it. -/
theorem search_eq_some_true {pattern : Bytes} (h : Plain pattern) (text : Bytes) :
    search pattern text = some true ↔ ∃ t, t <:+ text ∧ beginsLike pattern t = true := by
  rw [search, parse_plain h, Option.map_some, Option.some_inj, foundBehind_chain]

/-! ## What looks like a pattern -/

theorem beginsLike_append (p q s : Bytes) :
    beginsLike (p ++ q) s = (beginsLike p s && beginsLike q (s.drop p.length)) := by
  induction p generalizing s with
  | nil => rfl
  | cons c p ih =>
      cases s with
      | nil => rfl
      | cons d s =>
          rw [List.cons_append, beginsLike, beginsLike, ih, Bool.and_assoc, List.length_cons,
            List.drop_succ_cons]

/-- Without a dot it is the pattern itself, up to case. -/
theorem map_lowerByte_isPrefix {p s : Bytes} (hdot : dot ∉ p) (h : beginsLike p s = true) :
    p.map lowerByte <+: s.map lowerByte := by
  induction p generalizing s with
  | nil => exact List.nil_prefix
  | cons c p ih =>
      rw [List.mem_cons, not_or] at hdot
      cases s with
      | nil => cases h
      | cons d s =>
          rw [beginsLike, Bool.and_eq_true, pictured, if_neg (Ne.symm hdot.1), literal,
            decide_eq_true_eq] at h
          rw [List.map_cons, List.map_cons, h.1, List.cons_prefix_cons]
          exact ⟨rfl, ih hdot.2 h.2⟩

/-- The dots can be any character. -/
theorem beginsLike_fill {d : UInt8} (hd : isNoLineEnd d = true) (p : Bytes) :
    beginsLike p (p.map fun c => if c = dot then d else c) = true := by
  induction p with
  | nil => rfl
  | cons c p ih =>
      rw [List.map_cons, beginsLike, ih, Bool.and_true, pictured]
      by_cases hc : c = dot
      · rw [if_pos hc, if_pos hc, hd]
      · rw [if_neg hc, if_neg hc, literal, decide_eq_true rfl]

end Nazg.Lib.EcmaScript

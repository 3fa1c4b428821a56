import Nazg.Lib.Decimal
import Nazg.Lib.ShellWords

/-!
# Command lines as programs

The lists, pipelines and commands of a line, and what a shell does with them. Compound commands,
background jobs and here-documents are not read.

What the commands do is left open: a `World` has a state in which commands run, and says of each
what it makes of the state and how it ends. A line is written into a larger one in two ways. What
is written behind it belongs to its last command only (`readProgram_suffix`), or to none of it, and
a command in front of it with `&&` belongs to its first list (`readProgram_and`).
-/

namespace Nazg.Lib.ShellProgram

open Shell

/-! ## Redirections -/

inductive RedirectTarget where
  | file (o : Bytes) (w : Word)
  | copy (n : Nat)
  | close
  deriving DecidableEq

structure Redirect where
  fd : Nat
  target : RedirectTarget
  deriving DecidableEq

def fileOperators : List Bytes := [bytes "<", bytes ">", bytes ">>", bytes ">|", bytes "<>"]

/-- A redirection with its target. -/
def redirect (n : Option Bytes) (o : Bytes) (w : Word) : Option Redirect :=
  let fd := (n.map digitsValue).getD (if o.head? = some 60 then 0 else 1)
  if o ∈ fileOperators then some ⟨fd, .file o w⟩
  else if o = bytes ">&" ∨ o = bytes "<&" then
    if chars w = bytes "-" then some ⟨fd, .close⟩
    else if chars w ≠ [] ∧ (chars w).all isShellDigit then some ⟨fd, .copy (digitsValue (chars w))⟩
    else none
  else none

inductive Element where
  | word (w : Word)
  | redirect (r : Redirect)
  | op (o : Bytes)
  deriving DecidableEq

def elements : List Token → Option (List Element)
  | [] => some []
  | .word w :: ts => (elements ts).map (.word w :: ·)
  | .ioNumber n :: .op o :: .word w :: ts =>
      (redirect (some n) o w).bind fun r => (elements ts).map (.redirect r :: ·)
  | .ioNumber _ :: _ => none
  | .op o :: ts =>
      if isRedirection o then
        match ts with
        | .word w :: ts => (redirect none o w).bind fun r => (elements ts).map (.redirect r :: ·)
        | _ => none
      else (elements ts).map (.op o :: ·)

/-! ## Programs -/

structure Simple where
  words : List Word
  redirects : List Redirect
  deriving DecidableEq

/-- Commands that each read what the one before writes. -/
structure Pipeline where
  front : List Simple
  last : Simple
  deriving DecidableEq

inductive Connector where
  | and
  | or
  deriving DecidableEq

/-- Pipelines with what joins each to the next. -/
structure AndOr where
  before : List (Pipeline × Connector)
  last : Pipeline
  deriving DecidableEq

abbrev Program := List AndOr

def Simple.empty : Simple := ⟨[], []⟩

/-- What has been read of a line: the lists that have ended, and of the one that has not its
pipelines, of the last pipeline its commands, and the last command. -/
structure Reading where
  lists : List AndOr
  before : List (Pipeline × Connector)
  pipe : List Simple
  command : Simple
  deriving DecidableEq

namespace Reading

def init : Reading := ⟨[], [], [], .empty⟩

/-- The list that ends here. -/
def list (r : Reading) : AndOr := ⟨r.before, ⟨r.pipe, r.command⟩⟩

def step (r : Reading) : Element → Option Reading
  | .word w =>
      if r.command.words = [] ∧ reservedWords.any (fun v => w = bare v) then none
      else some { r with command := { r.command with words := r.command.words ++ [w] } }
  | .redirect x =>
      some { r with command := { r.command with redirects := r.command.redirects ++ [x] } }
  | .op o =>
      if r.command = .empty then if o = [10] then some r else none
      else if o = bytes "|" then
        some { r with pipe := r.pipe ++ [r.command], command := .empty }
      else if o = bytes "&&" then
        some ⟨r.lists, r.before ++ [(⟨r.pipe, r.command⟩, .and)], [], .empty⟩
      else if o = bytes "||" then
        some ⟨r.lists, r.before ++ [(⟨r.pipe, r.command⟩, .or)], [], .empty⟩
      else if o = bytes ";" ∨ o = [10] then some ⟨r.lists ++ [r.list], [], [], .empty⟩
      else none

/-- The lists, with the one that has not ended. -/
def program (r : Reading) : Program :=
  if r.command = .empty then r.lists else r.lists ++ [r.list]

/-- The line ends; behind `|`, `&&` and `||` it does not. -/
def finish (r : Reading) : Option Program :=
  if r.command = .empty ∧ ¬ (r.pipe = [] ∧ r.before = []) then none else some r.program

end Reading

def readProgram (s : Bytes) : Option Reading :=
  (lex s).bind fun ts => (elements ts).bind fun es => es.foldlM Reading.step .init

def program (s : Bytes) : Option Program := (readProgram s).bind Reading.finish

/-! ## Where output goes -/

/-- What collects the output, and anything else. -/
inductive Sink where
  | result
  | other
  deriving DecidableEq

def Redirect.apply (r : Redirect) (table : Nat → Sink) : Nat → Sink := fun n =>
  if n = r.fd then
    match r.target with
    | .file .. => .other
    | .copy m => table m
    | .close => .other
  else table n

/-- The table of a command; `piped` says that another one reads what it writes. -/
def tableOf (errors : Sink) (piped : Bool) : Nat → Sink := fun n =>
  if n = 1 then if piped then .other else .result
  else if n = 2 then errors
  else .other

namespace Simple

/-- The redirections go from left to right. -/
def captures (errors : Sink) (piped : Bool) (c : Simple) : Bool :=
  c.redirects.foldl (fun table r => r.apply table) (tableOf errors piped) 2 = .result

/-- The files a command opens. -/
def files (c : Simple) : List Redirect :=
  c.redirects.filter fun r => match r.target with | .file .. => true | _ => false

end Simple

/-- `2>&1`. -/
def errorsToOutput : Redirect := ⟨2, .copy 1⟩

/-- All but a command that is this redirection and nothing else. -/
def Simple.acts (c : Simple) : Bool := c.words ≠ [] || c.redirects.any (· ≠ errorsToOutput)

/-- The commands of a pipeline, and whether another reads what they write. -/
def Pipeline.commands (p : Pipeline) : List (Simple × Bool) :=
  p.front.map (·, true) ++ [(p.last, false)]

def AndOr.commands (l : AndOr) : List (Simple × Bool) :=
  l.before.flatMap (fun x => x.1.commands) ++ l.last.commands

def Program.commands (p : Program) : List (Simple × Bool) := p.flatMap AndOr.commands

/-! ## Running -/

/-- What commands do in a state: the next state, the status, and whether the shell ends with it.
`cd` changes the directory, or fails. -/
structure World (σ : Type) where
  exec : σ → List Word → List Redirect → σ × Nat × Bool
  chdir : σ → Bytes → Option σ
  cd : ∀ s dir, dir.head? ≠ some 45 →
    match chdir s dir with
    | some s' => exec s [bare (bytes "cd"), quoted dir] [] = (s', 0, false)
    | none => ∃ n, n ≠ 0 ∧ exec s [bare (bytes "cd"), quoted dir] [] = (s, n, false)

/-- A command that was run, in which state, and whether its errors were collected. -/
structure Part (σ : Type) where
  state : σ
  words : List Word
  files : List Redirect
  captured : Bool

/-- The command and its state. -/
def Part.ran {σ : Type} (x : Part σ) : σ × List Word × List Redirect := (x.state, x.words, x.files)

structure Machine (σ : Type) where
  state : σ
  status : Nat
  exited : Bool
  parts : List (Part σ)

def start {σ : Type} (s : σ) : Machine σ := ⟨s, 0, false, []⟩

def Connector.goesOn : Connector → Nat → Bool
  | .and, status => status = 0
  | .or, status => status ≠ 0

section Run

variable {σ : Type} (W : World σ) (errors : Sink)

def runSimple (piped : Bool) (m : Machine σ) (c : Simple) : Machine σ :=
  if c.acts then
    let r := W.exec m.state c.words c.files
    ⟨r.1, r.2.1, r.2.2, m.parts ++ [⟨m.state, c.words, c.files, c.captures errors piped⟩]⟩
  else { m with status := 0 }

/-- A command in a shell of its own. -/
def runForked (piped : Bool) (m : Machine σ) (c : Simple) : Machine σ :=
  { runSimple W errors piped m c with state := m.state, exited := m.exited }

def runPipeline (m : Machine σ) (p : Pipeline) : Machine σ :=
  if p.front = [] then runSimple W errors false m p.last
  else runForked W errors false (p.front.foldl (runForked W errors true) m) p.last

def runAndOr : List (Pipeline × Connector) → Pipeline → Bool → Machine σ → Machine σ
  | [], last, go, m => if go && !m.exited then runPipeline W errors m last else m
  | (p, c) :: rest, last, go, m =>
      let m' := if go && !m.exited then runPipeline W errors m p else m
      runAndOr rest last (c.goesOn m'.status) m'

def runProgram (m : Machine σ) (p : Program) : Machine σ :=
  p.foldl (fun m l => runAndOr W errors l.before l.last true m) m

end Run

/-! ## Rules of running -/

section Rules

variable {σ : Type} {W : World σ} {errors : Sink} {m : Machine σ} {P : Machine σ → Prop}

/-- Every one of the commands keeps it, and so does a return to the state before. -/
structure Kept (W : World σ) (errors : Sink) (P : Machine σ → Prop) (cs : List (Simple × Bool)) :
    Prop where
  step : ∀ m, P m → ∀ x ∈ cs, P (runSimple W errors x.2 m x.1)
  back : ∀ m m', P m → P m' → P { m' with state := m.state, exited := m.exited }

theorem Kept.of_subset {cs cs' : List (Simple × Bool)} (h : Kept W errors P cs) (hsub : cs' ⊆ cs) :
    Kept W errors P cs' :=
  ⟨fun m hm x hx => h.step m hm x (hsub hx), h.back⟩

theorem Kept.pipeline {p : Pipeline} (h : Kept W errors P p.commands) (hm : P m) :
    P (runPipeline W errors m p) := by
  have hfork : ∀ m, P m → ∀ x ∈ p.commands, P (runForked W errors x.2 m x.1) := fun m hm x hx =>
    h.back m _ hm (h.step m hm x hx)
  have hlast : (p.last, false) ∈ p.commands := by simp [Pipeline.commands]
  have hfront : P (p.front.foldl (runForked W errors true) m) := by
    refine List.foldlRecOn p.front _ hm ?_
    intro m' hm' c hc
    exact hfork m' hm' (c, true) (by simp [Pipeline.commands, hc])
  rw [runPipeline]
  split
  · exact h.step m hm _ hlast
  · exact hfork _ hfront _ hlast

theorem Kept.andOr {before : List (Pipeline × Connector)} {last : Pipeline}
    (h : Kept W errors P (AndOr.commands ⟨before, last⟩)) (go : Bool) (hm : P m) :
    P (runAndOr W errors before last go m) := by
  induction before generalizing m go with
  | nil =>
      have hlast : Kept W errors P last.commands := h.of_subset (by simp [AndOr.commands])
      rw [runAndOr]
      split
      · exact hlast.pipeline hm
      · exact hm
  | cons x rest ih =>
      have hfirst : Kept W errors P x.1.commands := h.of_subset (by simp [AndOr.commands])
      have hrest : Kept W errors P (AndOr.commands ⟨rest, last⟩) :=
        h.of_subset (by simp [AndOr.commands])
      rw [runAndOr]
      refine ih hrest _ ?_
      split
      · exact hfirst.pipeline hm
      · exact hm

theorem Kept.program {p : Program} (h : Kept W errors P (Program.commands p)) (hm : P m) :
    P (runProgram W errors m p) := by
  refine List.foldlRecOn p _ hm ?_
  intro m' hm' l hl
  have hlist : Kept W errors P l.commands :=
    h.of_subset fun x hx => List.mem_flatMap.2 ⟨l, hl, hx⟩
  exact hlist.andOr true hm'

/-- Errors of commands that collect them are collected. -/
theorem captured_runProgram {p : Program}
    (h : ∀ x ∈ Program.commands p, x.1.acts = true → x.1.captures errors x.2 = true)
    (hm : ∀ x ∈ m.parts, x.captured = true) :
    ∀ x ∈ (runProgram W errors m p).parts, x.captured = true := by
  have hkept : Kept W errors (fun m => ∀ x ∈ m.parts, x.captured = true) (Program.commands p) := by
    refine ⟨?_, fun _ _ _ hm' => hm'⟩
    intro m hm x hx
    rw [runSimple]
    split
    · next hacts =>
        intro y hy
        rcases List.mem_append.1 hy with hy | hy
        · exact hm y hy
        · rw [List.mem_singleton.1 hy]
          exact h x hx hacts
    · exact hm
  exact hkept.program hm

/-! ### What was run before -/

def Machine.behind (ps : List (Part σ)) (m : Machine σ) : Machine σ :=
  { m with parts := ps ++ m.parts }

theorem runSimple_behind (ps : List (Part σ)) (piped : Bool) (m : Machine σ) (c : Simple) :
    runSimple W errors piped (m.behind ps) c = (runSimple W errors piped m c).behind ps := by
  rw [runSimple, runSimple]
  split
  · simp [Machine.behind]
  · rfl

theorem runForked_behind (ps : List (Part σ)) (piped : Bool) (m : Machine σ) (c : Simple) :
    runForked W errors piped (m.behind ps) c = (runForked W errors piped m c).behind ps := by
  rw [runForked, runSimple_behind]
  rfl

theorem runPipeline_behind (ps : List (Part σ)) (m : Machine σ) (p : Pipeline) :
    runPipeline W errors (m.behind ps) p = (runPipeline W errors m p).behind ps := by
  rw [runPipeline, runPipeline]
  split
  · exact runSimple_behind ps false m p.last
  · rw [List.foldl_hom (Machine.behind ps) fun m c => runForked_behind ps true m c,
      runForked_behind]

theorem runAndOr_behind (ps : List (Part σ)) (before : List (Pipeline × Connector))
    (last : Pipeline) (go : Bool) (m : Machine σ) :
    runAndOr W errors before last go (m.behind ps) =
      (runAndOr W errors before last go m).behind ps := by
  induction before generalizing go m with
  | nil =>
      rw [runAndOr, runAndOr, runPipeline_behind]
      exact (apply_ite (Machine.behind ps) _ _ _).symm
  | cons x rest ih =>
      rw [runAndOr, runAndOr, runPipeline_behind]
      have hstep : (if (go && !(m.behind ps).exited) = true then
          (runPipeline W errors m x.1).behind ps else m.behind ps) =
          (if (go && !m.exited) = true then runPipeline W errors m x.1 else m).behind ps :=
        (apply_ite (Machine.behind ps) _ _ _).symm
      simp only [hstep]
      exact ih _ _

theorem runProgram_behind (ps : List (Part σ)) (m : Machine σ) (p : Program) :
    runProgram W errors (m.behind ps) p = (runProgram W errors m p).behind ps :=
  List.foldl_hom (Machine.behind ps) fun m l => runAndOr_behind ps l.before l.last true m

/-! ### Commands with other redirections of errors -/

/-- The same but for where errors went. -/
structure Machine.Agree (m m' : Machine σ) : Prop where
  state : m.state = m'.state
  status : m.status = m'.status
  exited : m.exited = m'.exited
  parts : m.parts.map Part.ran = m'.parts.map Part.ran

theorem Machine.Agree.refl (m : Machine σ) : m.Agree m := ⟨rfl, rfl, rfl, rfl⟩

structure Simple.Same (c c' : Simple) : Prop where
  words : c.words = c'.words
  files : c.files = c'.files
  acts : c.acts = c'.acts

variable {c c' : Simple}

theorem Simple.Same.runSimple (h : c.Same c') (piped : Bool) (m : Machine σ) :
    (runSimple W errors piped m c).Agree (runSimple W errors piped m c') := by
  rw [ShellProgram.runSimple, ShellProgram.runSimple, h.acts, h.words, h.files]
  split
  · exact ⟨rfl, rfl, rfl, by simp [Part.ran]⟩
  · exact .refl _

theorem Simple.Same.runPipeline (h : c.Same c') (front : List Simple) (m : Machine σ) :
    (runPipeline W errors m ⟨front, c⟩).Agree (runPipeline W errors m ⟨front, c'⟩) := by
  rw [ShellProgram.runPipeline, ShellProgram.runPipeline]
  split
  · exact h.runSimple false m
  · have hlast : (ShellProgram.runSimple W errors false
        (front.foldl (runForked W errors true) m) c).Agree
        (ShellProgram.runSimple W errors false (front.foldl (runForked W errors true) m) c') :=
      h.runSimple false _
    exact ⟨rfl, hlast.status, rfl, hlast.parts⟩

theorem Simple.Same.runAndOr (h : c.Same c') (before : List (Pipeline × Connector))
    (front : List Simple) (go : Bool) (m : Machine σ) :
    (runAndOr W errors before ⟨front, c⟩ go m).Agree
      (runAndOr W errors before ⟨front, c'⟩ go m) := by
  induction before generalizing go m with
  | nil =>
      rw [ShellProgram.runAndOr, ShellProgram.runAndOr]
      split
      · exact h.runPipeline front m
      · exact .refl m
  | cons x rest ih => exact ih _ _

theorem Simple.Same.runProgram (h : c.Same c') (ls : Program)
    (before : List (Pipeline × Connector)) (front : List Simple) (m : Machine σ) :
    (runProgram W errors m (ls ++ [⟨before, ⟨front, c⟩⟩])).Agree
      (runProgram W errors m (ls ++ [⟨before, ⟨front, c'⟩⟩])) := by
  rw [ShellProgram.runProgram, ShellProgram.runProgram, List.foldl_append, List.foldl_append]
  exact h.runAndOr before front true _

/-! ### A world in which nothing changes -/

/-- Every command leaves the state and ends with this status. -/
def Steady (W : World σ) (s : σ) (k : Nat) : Prop :=
  ∀ words files, W.exec s words files = (s, k, false)

/-- A command run in a state. -/
def partAt (errors : Sink) (s : σ) (x : Simple × Bool) : Part σ :=
  ⟨s, x.1.words, x.1.files, x.1.captures errors x.2⟩

/-- The commands that run if all end with this status. -/
def reached (k : Nat) : Bool → List (Pipeline × Connector) → Pipeline → List (Simple × Bool)
  | go, [], last => if go then last.commands else []
  | go, (p, c) :: rest, last => (if go then p.commands else []) ++ reached k (c.goesOn k) rest last

def Program.reached (k : Nat) (p : Program) : List (Simple × Bool) :=
  p.flatMap fun l => ShellProgram.reached k true l.before l.last

variable {s : σ} {k : Nat}

/-- A machine that has not left the state. -/
structure Machine.Stays (m : Machine σ) (s : σ) : Prop where
  state : m.state = s
  exited : m.exited = false

/-- These commands have run there. -/
def Machine.ranAt (errors : Sink) (s : σ) (k : Nat) (m : Machine σ) (cs : List (Simple × Bool)) :
    Machine σ := ⟨s, k, false, m.parts ++ cs.map (partAt errors s)⟩

theorem ranAt_ranAt (cs cs' : List (Simple × Bool)) :
    (m.ranAt errors s k cs).ranAt errors s k cs' = m.ranAt errors s k (cs ++ cs') := by
  simp [Machine.ranAt]

theorem runSimple_eq {piped : Bool} (hacts : c.acts = true) {s' : σ} {n : Nat} {e : Bool}
    (h : W.exec m.state c.words c.files = (s', n, e)) : runSimple W errors piped m c =
      ⟨s', n, e, m.parts ++ [⟨m.state, c.words, c.files, c.captures errors piped⟩]⟩ := by
  rw [runSimple, if_pos hacts, h]

theorem runSimple_steady (h : Steady W s k) (hm : m.Stays s) (piped : Bool)
    (hacts : c.acts = true) :
    runSimple W errors piped m c = m.ranAt errors s k [(c, piped)] := by
  have hexec : W.exec m.state c.words c.files = (s, k, false) := by rw [hm.state, h]
  rw [runSimple_eq hacts hexec, hm.state]
  rfl

theorem runForked_steady (h : Steady W s k) (hm : m.Stays s) (piped : Bool)
    (hacts : c.acts = true) :
    runForked W errors piped m c = m.ranAt errors s k [(c, piped)] := by
  rw [runForked, runSimple_steady h hm piped hacts, hm.state, hm.exited]
  rfl

theorem front_steady (h : Steady W s k) (hm : m.Stays s) {cs : List Simple} (hne : cs ≠ [])
    (hacts : ∀ c ∈ cs, c.acts = true) :
    cs.foldl (runForked W errors true) m = m.ranAt errors s k (cs.map (·, true)) := by
  induction cs generalizing m with
  | nil => exact absurd rfl hne
  | cons c cs ih =>
      rw [List.foldl_cons, runForked_steady h hm true (hacts c List.mem_cons_self)]
      by_cases hcs : cs = []
      · rw [hcs]
        rfl
      · rw [ih ⟨rfl, rfl⟩ hcs fun c hc => hacts c (List.mem_cons_of_mem _ hc), ranAt_ranAt]
        rfl

theorem runPipeline_steady (h : Steady W s k) (hm : m.Stays s) {p : Pipeline}
    (hacts : ∀ x ∈ p.commands, x.1.acts = true) :
    runPipeline W errors m p = m.ranAt errors s k p.commands := by
  have hlast : p.last.acts = true := hacts (p.last, false) (by simp [Pipeline.commands])
  rw [runPipeline, Pipeline.commands]
  split
  · next hfront =>
      rw [hfront]
      exact runSimple_steady h hm false hlast
  · next hfront =>
      have hall : ∀ c ∈ p.front, c.acts = true := fun c hc =>
        hacts (c, true) (by simp [Pipeline.commands, hc])
      rw [front_steady h hm hfront hall, runForked_steady h ⟨rfl, rfl⟩ false hlast, ranAt_ranAt]

theorem runAndOr_steady (h : Steady W s k) (hm : m.Stays s) {before : List (Pipeline × Connector)}
    {last : Pipeline} (hacts : ∀ x ∈ AndOr.commands ⟨before, last⟩, x.1.acts = true) {go : Bool}
    (hgo : go = true ∨ m.status = k) :
    runAndOr W errors before last go m = m.ranAt errors s k (reached k go before last) := by
  have hskip : go = false → m = m.ranAt errors s k [] := by
    intro hgo'
    have hstatus : m.status = k := hgo.resolve_left (by simp [hgo'])
    rw [Machine.ranAt, ← hm.state, ← hstatus, ← hm.exited]
    simp
  induction before generalizing m go with
  | nil =>
      rw [runAndOr, reached, hm.exited]
      cases go with
      | false => exact hskip rfl
      | true => exact runPipeline_steady h hm (by simpa [AndOr.commands] using hacts)
  | cons x rest ih =>
      have hfirst : ∀ y ∈ x.1.commands, y.1.acts = true := fun y hy =>
        hacts y (by simp [AndOr.commands, hy])
      have hrest : ∀ y ∈ AndOr.commands ⟨rest, last⟩, y.1.acts = true := fun y hy =>
        hacts y (by
          rw [AndOr.commands, List.flatMap_cons, List.append_assoc]
          exact List.mem_append_right _ hy)
      have hstep : (if (go && !m.exited) = true then runPipeline W errors m x.1 else m) =
          m.ranAt errors s k (if go then x.1.commands else []) := by
        rw [hm.exited]
        cases go with
        | false => exact hskip rfl
        | true => exact runPipeline_steady h hm hfirst
      rw [runAndOr, hstep, reached,
        ih ⟨rfl, rfl⟩ hrest (.inr rfl) fun _ => by simp [Machine.ranAt], ranAt_ranAt]
      rfl

theorem runProgram_steady (h : Steady W s k) (hm : m.Stays s) {p : Program}
    (hacts : ∀ x ∈ Program.commands p, x.1.acts = true) (hp : p ≠ [] ∨ m.status = k) :
    runProgram W errors m p = m.ranAt errors s k (Program.reached k p) := by
  induction p generalizing m with
  | nil =>
      have hstatus : m.status = k := hp.resolve_left (by simp)
      rw [runProgram, Machine.ranAt, ← hm.state, ← hstatus, ← hm.exited]
      simp [Program.reached]
  | cons l p ih =>
      have hfirst : ∀ x ∈ AndOr.commands ⟨l.before, l.last⟩, x.1.acts = true := fun x hx =>
        hacts x (List.mem_flatMap.2 ⟨l, List.mem_cons_self, hx⟩)
      have hrest : ∀ x ∈ Program.commands p, x.1.acts = true := fun x hx =>
        hacts x (List.mem_append_right _ hx)
      rw [runProgram, List.foldl_cons, runAndOr_steady h hm hfirst (.inl rfl)]
      exact (ih ⟨rfl, rfl⟩ hrest (.inr rfl)).trans (ranAt_ranAt _ _)

/-- Every command runs if all succeed or if all fail. -/
theorem mem_reached {before : List (Pipeline × Connector)} {last : Pipeline} {x : Simple × Bool}
    (hx : x ∈ AndOr.commands ⟨before, last⟩) :
    (∀ k, x ∈ reached k true before last) ∨ ∃ k, ∀ go, x ∈ reached k go before last := by
  induction before with
  | nil => exact .inl fun _ => hx
  | cons y rest ih =>
      rw [AndOr.commands, List.flatMap_cons, List.append_assoc] at hx
      rcases List.mem_append.1 hx with hx | hx
      · exact .inl fun k => List.mem_append_left _ hx
      · rcases ih hx with h | ⟨k, h⟩
        · obtain ⟨k, hk⟩ : ∃ k, y.2.goesOn k = true := by
            cases y.2 with
            | and => exact ⟨0, rfl⟩
            | or => exact ⟨1, rfl⟩
          refine .inr ⟨k, fun go => List.mem_append_right _ ?_⟩
          rw [hk]
          exact h k
        · exact .inr ⟨k, fun go => List.mem_append_right _ (h _)⟩

theorem Program.mem_reached {p : Program} {x : Simple × Bool} (hx : x ∈ Program.commands p) :
    ∃ k, x ∈ Program.reached k p := by
  obtain ⟨l, hl, hx⟩ := List.mem_flatMap.1 hx
  rcases ShellProgram.mem_reached hx with h | ⟨k, h⟩
  · exact ⟨0, List.mem_flatMap.2 ⟨l, hl, h 0⟩⟩
  · exact ⟨k, List.mem_flatMap.2 ⟨l, hl, h true⟩⟩

theorem commands_ne_nil (p : Pipeline) : p.commands ≠ [] := by simp [Pipeline.commands]

theorem reached_ne_nil (k : Nat) (before : List (Pipeline × Connector)) (last : Pipeline) :
    reached k true before last ≠ [] := by
  cases before with
  | nil => exact commands_ne_nil last
  | cons x rest => exact List.append_ne_nil_of_left_ne_nil (commands_ne_nil x.1) _

/-- Behind `||` something runs if all fail. -/
theorem reached_or {before : List (Pipeline × Connector)} {x : Pipeline × Connector}
    (hx : x ∈ before) (hor : x.2 = .or) (go : Bool) (last : Pipeline) :
    reached 1 go before last ≠ [] := by
  induction before generalizing go with
  | nil => cases hx
  | cons y rest ih =>
      refine List.append_ne_nil_of_right_ne_nil _ ?_
      rcases List.mem_cons.1 hx with rfl | hx
      · rw [hor]
        exact reached_ne_nil 1 rest last
      · exact ih hx _

/-- Behind a failure nothing runs without `||`. -/
theorem runAndOr_stopped {before : List (Pipeline × Connector)} (h : ∀ x ∈ before, x.2 = .and)
    (last : Pipeline) (hm : m.status ≠ 0) : runAndOr W errors before last false m = m := by
  induction before with
  | nil => rfl
  | cons x rest ih =>
      have hstop : x.2.goesOn m.status = false := by
        rw [h x List.mem_cons_self]
        exact decide_eq_false hm
      rw [runAndOr]
      simp only [Bool.false_and, Bool.false_eq_true, if_false, hstop]
      exact ih fun y hy => h y (List.mem_cons_of_mem _ hy)

/-- Where a steady world is, it stays. -/
theorem state_runProgram (h : Steady W s k) {p : Program} (hm : m.state = s)
    (hparts : ∀ x ∈ m.parts, x.state = s) : ∀ x ∈ (runProgram W errors m p).parts, x.state = s := by
  have hkept : Kept W errors (fun m => m.state = s ∧ ∀ x ∈ m.parts, x.state = s)
      (Program.commands p) := by
    refine ⟨?_, fun m m' hm hm' => ⟨hm.1, hm'.2⟩⟩
    intro m hm x _
    rw [runSimple]
    split
    · refine ⟨by rw [hm.1, h], ?_⟩
      intro y hy
      rcases List.mem_append.1 hy with hy | hy
      · exact hm.2 y hy
      · rw [List.mem_singleton.1 hy]
        exact hm.1
    · exact hm
  exact (hkept.program ⟨hm, hparts⟩).2

/-! ### A command in front -/

theorem runAndOr_cons (x : Pipeline × Connector) (rest : List (Pipeline × Connector))
    (last : Pipeline) (hm : m.exited = false) : runAndOr W errors (x :: rest) last true m =
      runAndOr W errors rest last (x.2.goesOn (runPipeline W errors m x.1).status)
        (runPipeline W errors m x.1) := by
  rw [runAndOr, hm]
  rfl

end Rules

/-- `cd` to a directory. -/
def cdTo (dir : Bytes) : Simple := ⟨[bare (bytes "cd"), quoted dir], []⟩

/-- Two places, of which the second is a directory of the first that can be entered, or not. -/
def twoPlaces (dir : Bytes) (k : Nat) (enters : Bool) : World Bool where
  exec s words files :=
    if (enters = true ∧ s = false ∧ dir ≠ [] ∧ dir.head? ≠ some 45) ∧
        words = (cdTo dir).words ∧ files = [] then (true, 0, false)
    else (s, k, false)
  chdir s d :=
    if enters = true ∧ s = false ∧ dir ≠ [] ∧ d = dir then some true
    else if k = 0 then some s
    else none
  cd := by
    intro s d hd
    by_cases hhere : enters = true ∧ s = false ∧ dir ≠ [] ∧ d = dir
    · obtain ⟨henters, hs, hne, rfl⟩ := hhere
      rw [if_pos ⟨henters, hs, hne, rfl⟩]
      exact if_pos ⟨⟨henters, hs, hne, hd⟩, rfl, rfl⟩
    · have hstay : ¬ ((enters = true ∧ s = false ∧ dir ≠ [] ∧ dir.head? ≠ some 45) ∧
          [bare (bytes "cd"), quoted d] = (cdTo dir).words ∧ ([] : List Redirect) = []) := by
        rintro ⟨h, hwords, -⟩
        have hquoted : quoted d = quoted dir := by
          injection hwords with _ hwords
          injection hwords
        have hd : d = dir := by simpa using congrArg chars hquoted
        exact hhere ⟨h.1, h.2.1, h.2.2.1, hd⟩
      rw [if_neg hhere, if_neg hstay]
      by_cases hk : k = 0
      · rw [if_pos hk, hk]
      · rw [if_neg hk]
        exact ⟨k, hk, rfl⟩

theorem twoPlaces_inside (dir : Bytes) (k : Nat) (enters : Bool) :
    Steady (twoPlaces dir k enters) true k := fun _ _ => if_neg fun h => by cases h.1.2.1

theorem twoPlaces_outside {dir : Bytes} {k : Nat} {enters : Bool}
    (h : enters = true → dir = [] ∨ dir.head? = some 45) :
    Steady (twoPlaces dir k enters) false k := by
  intro words files
  refine if_neg fun hgo => ?_
  rcases h hgo.1.1 with hnil | hdash
  · exact hgo.1.2.2.1 hnil
  · exact hgo.1.2.2.2 hdash

/-! ## Written behind a line -/

/-- The mode at the end of a text. -/
def endMode : Option Word → Mode → Bytes → Mode
  | _, m, [] => m
  | cur, m, c :: s =>
      match Shell.step cur m c with
      | some (_, cur', m') => endMode cur' m' s
      | none => m

/-- Whatever is written behind it belongs to a comment. -/
def EndsInComment (s : Bytes) : Prop := endMode none .bare s = .comment

instance : DecidablePred EndsInComment := fun _ => inferInstanceAs (Decidable (_ = _))

theorem bareStep_comment {cur cur' : Option Word} {c : UInt8} {ts : List Token}
    (h : bareStep cur c = some (ts, cur', .comment)) : cur' = none := by
  rcases bareStep_cases h with h | h | h | h | h | h | h
  · exact h.2.2.1
  · exact h.2.2.1
  · rcases h.1 with ⟨-, hm⟩ | ⟨-, hm⟩
    · cases hm
    · cases hm
  · cases h.2.2.2
  · exact h.2.2.2.1
  · exact h.2.2.1
  · cases h.2.2.2.2

/-- No word is open in a comment. -/
theorem step_comment {cur cur' : Option Word} {m : Mode} {c : UInt8} {ts : List Token}
    (h : Shell.step cur m c = some (ts, cur', .comment)) : cur' = none := by
  cases m with
  | bare => exact bareStep_comment h
  | comment =>
      rw [Shell.step] at h
      split at h
      · exact bareStep_comment h
      · cases h
        rfl
  | operator o =>
      rw [Shell.step] at h
      split at h
      · cases h
      · obtain ⟨⟨ts', cur'', m'⟩, hstep, heq⟩ := Option.map_eq_some_iff.1 h
        cases heq
        exact bareStep_comment hstep
  | escaped =>
      rw [Shell.step] at h
      split at h
      · cases h
      · cases h
  | single =>
      rw [Shell.step] at h
      split at h
      · cases h
      · cases h
  | double =>
      rw [Shell.step] at h
      split at h
      · cases h
      · split at h
        · cases h
        · split at h
          · cases h
          · cases h
  | doubleEscaped =>
      rw [Shell.step] at h
      split at h
      · cases h
      · split at h
        · cases h
        · cases h

theorem tokens_comment {s : Bytes} (h : 10 ∉ s) : tokens none .comment s = some [] := by
  induction s with
  | nil => rfl
  | cons c s ih =>
      rw [List.mem_cons, not_or] at h
      have hstep : Shell.step none .comment c = some ([], none, .comment) := if_neg (Ne.symm h.1)
      rw [tokens_of_step hstep, ih h.2]

/-- The end of a text is left by what follows a blank. -/
theorem tokens_finish {cur : Option Word} {m : Mode} {ts : List Token} (h : finish cur m = some ts)
    (hm : m ≠ .comment) (s : Bytes) :
    tokens cur m (32 :: s) = (tokens none .bare s).map (ts ++ ·) := by
  cases m with
  | bare =>
      obtain rfl := Option.some.inj h
      exact tokens_blank rfl cur s
  | operator o =>
      obtain rfl := Option.some.inj h
      have hno : o ++ [32] ∉ operators := by
        intro hmem
        have hall : ∀ x ∈ operators, x.getLast? ≠ some 32 := by decide
        exact hall _ hmem List.getLast?_concat
      have hstep : Shell.step cur (.operator o) 32 = some ([.op o], none, .bare) := by
        rw [Shell.step, if_neg hno]
        rfl
      rw [tokens_cons, hstep, Option.bind_some]
  | comment => exact absurd rfl hm
  | escaped => cases h
  | single => cases h
  | double => cases h
  | doubleEscaped => cases h

/-- What is written behind a text with a blank is read by itself, or not at all. -/
theorem tokens_behind {s t : Bytes} (hline : 10 ∉ t) {cur : Option Word} {m : Mode}
    {ts : List Token} (hm : m = .comment → cur = none) (h : tokens cur m s = some ts) :
    tokens cur m (s ++ 32 :: t) =
      if endMode cur m s = .comment then some ts else (lex t).map (ts ++ ·) := by
  induction s generalizing cur m ts with
  | nil =>
      rw [List.nil_append, endMode]
      split
      · next hend =>
          rw [hend, hm hend] at h ⊢
          rw [tokens_comment (by simpa using hline)]
          exact h
      · next hend => exact tokens_finish h hend t
  | cons c s ih =>
      obtain ⟨ts', cur', m', rest, hstep, hrest, rfl⟩ := tokens_cons_eq_some h
      have hcomment : m' = .comment → cur' = none := by
        rintro rfl
        exact step_comment hstep
      rw [List.cons_append, tokens_cons, hstep, Option.bind_some, ih hcomment hrest, endMode, hstep]
      simp only
      split
      · rfl
      · rw [Option.map_map]
        congr 1
        funext x
        simp

theorem elements_append {ts ts' : List Token} {es es' : List Element}
    (h : elements ts = some es) (h' : elements ts' = some es') :
    elements (ts ++ ts') = some (es ++ es') := by
  induction ts using elements.induct generalizing es with
  | case1 =>
      cases h
      exact h'
  | case2 w ts ih =>
      rw [elements] at h
      obtain ⟨rest, hrest, rfl⟩ := Option.map_eq_some_iff.1 h
      rw [List.cons_append, elements, ih hrest]
      rfl
  | case3 n o w ts ih =>
      rw [elements] at h
      obtain ⟨r, hr, h⟩ := Option.bind_eq_some_iff.1 h
      obtain ⟨rest, hrest, rfl⟩ := Option.map_eq_some_iff.1 h
      rw [List.cons_append, List.cons_append, List.cons_append, elements, hr, Option.bind_some,
        ih hrest]
      rfl
  | case4 n ts hno =>
      rw [elements] at h
      · cases h
      · exact hno
  | case5 o ho w ts ih =>
      simp only [elements, if_pos ho] at h
      obtain ⟨r, hr, h⟩ := Option.bind_eq_some_iff.1 h
      obtain ⟨rest, hrest, rfl⟩ := Option.map_eq_some_iff.1 h
      simp only [List.cons_append, elements, if_pos ho, hr, Option.bind_some, ih hrest,
        Option.map_some]
  | case6 o ts ho hno =>
      rw [elements.eq_def] at h
      simp only [if_pos ho] at h
      cases h
  | case7 o ts ho ih =>
      rw [elements.eq_def] at h
      simp only [if_neg ho] at h
      obtain ⟨rest, hrest, rfl⟩ := Option.map_eq_some_iff.1 h
      rw [List.cons_append, elements.eq_def]
      simp only [if_neg ho, ih hrest, Option.map_some, List.cons_append]

/-- One more redirection on the last command. -/
def Reading.add (r : Reading) (x : Redirect) : Reading :=
  { r with command := { r.command with redirects := r.command.redirects ++ [x] } }

theorem lex_errorsToOutput : lex (bytes "2>&1") =
    some [.ioNumber (bytes "2"), .op (bytes ">&"), .word (bare (bytes "1"))] := by decide

theorem elements_errorsToOutput :
    elements [.ioNumber (bytes "2"), .op (bytes ">&"), .word (bare (bytes "1"))] =
      some [.redirect errorsToOutput] := by decide

/-- A redirection behind a line is one of its last command. -/
theorem readProgram_suffix {s : Bytes} {r : Reading} (h : readProgram s = some r) :
    readProgram (s ++ bytes " 2>&1") =
      some (if EndsInComment s then r else r.add errorsToOutput) := by
  obtain ⟨ts, hts, h⟩ := Option.bind_eq_some_iff.1 h
  obtain ⟨es, hes, h⟩ := Option.bind_eq_some_iff.1 h
  have hlex : lex (s ++ bytes " 2>&1") = if EndsInComment s then some ts
      else (lex (bytes "2>&1")).map (ts ++ ·) :=
    tokens_behind (t := bytes "2>&1") (by decide) (fun h => by cases h) hts
  rw [readProgram, hlex]
  split
  · rw [Option.bind_some, hes, Option.bind_some, h]
  · rw [lex_errorsToOutput, Option.map_some, Option.bind_some,
      elements_append hes elements_errorsToOutput, Option.bind_some, List.foldlM_append, h]
    rfl

theorem add_command_ne (r : Reading) (x : Redirect) : (r.add x).command ≠ .empty := by
  intro h
  have hredirects := congrArg Simple.redirects h
  simp [Reading.add, Simple.empty] at hredirects

theorem finish_eq_some {r : Reading} {p : Program} (h : r.finish = some p) :
    p = r.program ∧ (r.command = .empty → r.pipe = [] ∧ r.before = []) := by
  rw [Reading.finish] at h
  split at h
  · cases h
  · next hopen =>
      cases h
      exact ⟨rfl, fun hempty => by simpa [hempty] using hopen⟩

theorem program_add (r : Reading) (x : Redirect) : (r.add x).program =
    r.lists ++ [⟨r.before, ⟨r.pipe, { r.command with redirects := r.command.redirects ++ [x] }⟩⟩] :=
  if_neg (add_command_ne r x)

theorem finish_add (r : Reading) (x : Redirect) : (r.add x).finish = some (r.add x).program :=
  if_neg fun h => add_command_ne r x h.1

/-- `2>&1` changes nothing of what a command does. -/
theorem same_errorsToOutput (c : Simple) :
    c.Same { c with redirects := c.redirects ++ [errorsToOutput] } := by
  refine ⟨rfl, ?_, ?_⟩
  · simp [Simple.files, errorsToOutput]
  · simp [Simple.acts]

/-- Neither does it of what a line does whose last command it stands behind. -/
theorem agree_errorsToOutput {σ : Type} (W : World σ) (errors : Sink) (m : Machine σ) {r : Reading}
    (h : r.command ≠ .empty) :
    (runProgram W errors m r.program).Agree
      (runProgram W errors m (r.add errorsToOutput).program) := by
  rw [program_add, Reading.program, if_neg h]
  exact (same_errorsToOutput r.command).runProgram r.lists r.before r.pipe m

theorem commands_errorsToOutput {r : Reading} (h : r.command ≠ .empty) {x : Simple × Bool}
    (hx : x ∈ Program.commands (r.add errorsToOutput).program) :
    ∃ y ∈ Program.commands r.program, y.1.acts = x.1.acts := by
  rw [program_add] at hx
  rw [Reading.program, if_neg h, Reading.list]
  have hlast : (r.command, false) ∈
      Program.commands (r.lists ++ [⟨r.before, ⟨r.pipe, r.command⟩⟩]) := by
    simp [Program.commands, AndOr.commands, Pipeline.commands]
  by_cases hxlast : x = (⟨r.command.words, r.command.redirects ++ [errorsToOutput]⟩, false)
  · exact ⟨_, hlast, by rw [hxlast]; exact (same_errorsToOutput r.command).acts⟩
  · refine ⟨x, ?_, rfl⟩
    simp only [Program.commands, AndOr.commands, Pipeline.commands, List.flatMap_append,
      List.flatMap_cons, List.flatMap_nil, List.append_nil, List.mem_append,
      List.mem_singleton, hxlast, or_false] at hx ⊢
    rcases hx with hx | hx | hx
    · exact .inl hx
    · exact .inr (.inl hx)
    · exact .inr (.inr (.inl hx))

/-- Behind a separator it is a command of its own, which does nothing. -/
theorem runProgram_errorsToOutput {σ : Type} (W : World σ) (errors : Sink) (m : Machine σ)
    {r : Reading} (h : r.command = .empty) (hclosed : r.pipe = [] ∧ r.before = []) :
    runProgram W errors m (r.add errorsToOutput).program =
      if (runProgram W errors m r.program).exited then runProgram W errors m r.program
      else { runProgram W errors m r.program with status := 0 } := by
  rw [program_add, hclosed.1, hclosed.2, h, Reading.program, if_pos h, runProgram,
    List.foldl_append]
  change runAndOr W errors [] _ true (runProgram W errors m r.lists) = _
  rw [runAndOr]
  cases (runProgram W errors m r.lists).exited with
  | true => rfl
  | false => rfl

/-! ## Written in front of a line -/

/-- A command in front of a list. -/
def AndOr.behind (c : Simple) (l : AndOr) : AndOr :=
  { l with before := (⟨[], c⟩, .and) :: l.before }

/-- A command in front of the first list. -/
def Reading.behind (c : Simple) (r : Reading) : Reading :=
  match r.lists with
  | [] => { r with before := (⟨[], c⟩, .and) :: r.before }
  | l :: ls => { r with lists := l.behind c :: ls }

def Program.behind (c : Simple) : Program → Option Program
  | [] => none
  | l :: ls => some (l.behind c :: ls)

@[simp] theorem behind_command (c : Simple) (r : Reading) : (r.behind c).command = r.command := by
  rw [Reading.behind]
  split <;> rfl

theorem step_behind (c : Simple) (r : Reading) (e : Element) :
    (r.behind c).step e = (r.step e).map (Reading.behind c) := by
  have hlists : ∀ r' : Reading, r'.lists = [] ∨ ∃ l ls, r'.lists = l :: ls := fun r' => by
    cases r'.lists with
    | nil => exact .inl rfl
    | cons l ls => exact .inr ⟨l, ls, rfl⟩
  cases e with
  | word w =>
      simp only [Reading.step, behind_command]
      split_ifs
      · rfl
      · rcases hlists r with h | ⟨l, ls, h⟩ <;> simp [Reading.behind, h]
  | redirect x =>
      simp only [Reading.step, behind_command]
      rcases hlists r with h | ⟨l, ls, h⟩ <;> simp [Reading.behind, h]
  | op o =>
      simp only [Reading.step, behind_command]
      rcases hlists r with h | ⟨l, ls, h⟩
      · split_ifs <;> simp [Reading.behind, Reading.list, AndOr.behind, h]
      · split_ifs <;> simp [Reading.behind, Reading.list, h]

theorem foldlM_behind (c : Simple) (r : Reading) (es : List Element) :
    es.foldlM Reading.step (r.behind c) = (es.foldlM Reading.step r).map (Reading.behind c) := by
  induction es generalizing r with
  | nil => rfl
  | cons e es ih =>
      rw [List.foldlM_cons, List.foldlM_cons, step_behind]
      cases r.step e with
      | none => rfl
      | some r' => exact ih r'

/-- `&&` wants a command behind it. -/
theorem finish_behind (c : Simple) (r : Reading) :
    (r.behind c).finish = r.finish.bind (Program.behind c) := by
  obtain ⟨lists, before, pipe, command⟩ := r
  by_cases hempty : command = .empty
  · subst hempty
    cases lists with
    | nil =>
        by_cases hopen : pipe = [] ∧ before = []
        · simp [Reading.behind, Reading.finish, Reading.program, Program.behind, hopen]
        · simp [Reading.behind, Reading.finish, hopen]
    | cons l ls =>
        by_cases hopen : pipe = [] ∧ before = []
        · simp [Reading.behind, Reading.finish, Reading.program, Program.behind, hopen]
        · simp [Reading.behind, Reading.finish, hopen]
  · cases lists with
    | nil => simp [Reading.behind, Reading.finish, Reading.program, Reading.list, Program.behind,
        AndOr.behind, hempty]
    | cons l ls => simp [Reading.behind, Reading.finish, Reading.program, Reading.list,
        Program.behind, hempty]

section Running

variable {σ : Type} {W : World σ} {errors : Sink} {m : Machine σ}

/-- Behind a command that succeeds the line runs as it is. -/
theorem runProgram_entered (hm : m.exited = false) {c : Simple}
    (hc : (runSimple W errors false m c).status = 0) (l : AndOr) (ls : Program) :
    runProgram W errors m (l.behind c :: ls) =
      runProgram W errors (runSimple W errors false m c) (l :: ls) := by
  have hpipe : runPipeline W errors m ⟨[], c⟩ = runSimple W errors false m c := rfl
  have hgo : Connector.and.goesOn (runSimple W errors false m c).status = true := decide_eq_true hc
  rw [runProgram, runProgram, List.foldl_cons, List.foldl_cons, AndOr.behind,
    runAndOr_cons _ _ _ hm, hpipe, hgo]

/-- Behind one that fails a list without `||` does not run. -/
theorem runProgram_stopped (hm : m.exited = false) {c : Simple}
    (hc : (runSimple W errors false m c).status ≠ 0) {l : AndOr} (hl : ∀ x ∈ l.before, x.2 = .and) :
    runProgram W errors m [l.behind c] = runSimple W errors false m c := by
  have hpipe : runPipeline W errors m ⟨[], c⟩ = runSimple W errors false m c := rfl
  have hgo : Connector.and.goesOn (runSimple W errors false m c).status = false :=
    decide_eq_false hc
  rw [runProgram, List.foldl_cons, List.foldl_nil, AndOr.behind, runAndOr_cons _ _ _ hm, hpipe, hgo,
    runAndOr_stopped hl _ hc]

end Running

theorem elements_words (ws : List Word) (ts : List Token) :
    elements (ws.map .word ++ ts) = (elements ts).map (ws.map .word ++ ·) := by
  induction ws with
  | nil => simp
  | cons w ws ih =>
      rw [List.map_cons, List.cons_append, elements, ih, Option.map_map]
      rfl

theorem foldlM_words {w : Word} (hw : ¬ reservedWords.any (fun v => w = bare v)) (ws : List Word) :
    ((w :: ws).map Element.word).foldlM Reading.step .init =
      some ⟨[], [], [], ⟨w :: ws, []⟩⟩ := by
  have hrest : ∀ vs, vs ≠ [] → (ws.map Element.word).foldlM Reading.step ⟨[], [], [], ⟨vs, []⟩⟩ =
      some ⟨[], [], [], ⟨vs ++ ws, []⟩⟩ := by
    induction ws with
    | nil => simp
    | cons v ws ih =>
        intro vs hvs
        have hstep : Reading.step ⟨[], [], [], ⟨vs, []⟩⟩ (.word v) =
            some ⟨[], [], [], ⟨vs ++ [v], []⟩⟩ := by
          rw [Reading.step, if_neg fun h => hvs h.1]
        rw [List.map_cons, List.foldlM_cons, hstep]
        simpa using ih (vs ++ [v]) (by simp)
  have hstep : Reading.init.step (.word w) = some ⟨[], [], [], ⟨[w], []⟩⟩ := by
    rw [Reading.step, if_neg fun h => hw h.2]
    rfl
  rw [List.map_cons, List.foldlM_cons, hstep]
  exact hrest [w] (by simp)

/-- A command with `&&` is read in front of the line. -/
theorem readProgram_and {a : Arg} {as : List Arg} (h : ∀ b ∈ a :: as, b.Faithful)
    (ha : ¬ reservedWords.any (fun v => a.toWord = bare v)) (s : Bytes) :
    readProgram (a.text ++ (argsText as ++ 32 :: (bytes "&&" ++ 32 :: s))) =
      (readProgram s).map (Reading.behind ⟨(a :: as).map Arg.toWord, []⟩) := by
  have hends : Ends (32 :: (bytes "&&" ++ 32 :: s)) := by
    intro c hc
    cases hc
    rfl
  have hlex : lex (a.text ++ (argsText as ++ 32 :: (bytes "&&" ++ 32 :: s))) =
      (lex s).map fun ts => ((a :: as).map Arg.toWord).map .word ++ .op (bytes "&&") :: ts := by
    rw [lex, tokens_line h hends, joins_and.2, Option.map_map, lex]
    simp [Function.comp_def]
  have hop : ∀ ts, elements (.op (bytes "&&") :: ts) =
      (elements ts).map (.op (bytes "&&") :: ·) := by
    intro ts
    rw [elements.eq_def]
    simp only [joins_and.1, Bool.false_eq_true, if_false]
  have hwords : (((a :: as).map Arg.toWord).map Element.word).foldlM Reading.step .init =
      some ⟨[], [], [], ⟨(a :: as).map Arg.toWord, []⟩⟩ := foldlM_words ha (as.map Arg.toWord)
  have hjoin : Reading.step ⟨[], [], [], ⟨(a :: as).map Arg.toWord, []⟩⟩ (.op (bytes "&&")) =
      some (Reading.init.behind ⟨(a :: as).map Arg.toWord, []⟩) := rfl
  rw [readProgram, hlex, readProgram]
  cases lex s with
  | none => rfl
  | some ts =>
      rw [Option.map_some, Option.bind_some, Option.bind_some, elements_words, hop]
      cases elements ts with
      | none => rfl
      | some es =>
          simp only [Option.map_some, Option.bind_some]
          rw [List.foldlM_append, hwords, Option.bind_eq_bind, Option.bind_some,
            List.foldlM_cons, hjoin]
          exact foldlM_behind _ .init es

end Nazg.Lib.ShellProgram

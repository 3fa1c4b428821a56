import Nazg.Git.Client

/-!
# What git prints as the status

The lines of `git status --porcelain=v2 --branch`: headers, changed files with a code for the
index and one for the worktree, unmerged, untracked and ignored files. A path stands at the
end of its line as git prints it, so it may have spaces in it, also at its ends.

`status_shows` says that the client reads all of it.
-/

namespace Nazg.Git

open Lib

/-- A field of a line. -/
structure Field where
  text : Bytes
  nonempty : text ≠ []
  noSpace : ∀ c ∈ text, isSpace c = false
  noNul : (0 : UInt8) ∉ text

/-- A name or a path as it is printed. -/
structure Printed where
  text : Bytes
  nonempty : text ≠ []
  noBreak : newline ∉ text
  noNul : (0 : UInt8) ∉ text

/-- A half of the field `<XY>`. -/
inductive StatusCode where
  | unchanged
  | modified
  | typeChanged
  | added
  | deleted
  | renamed
  | copied
  | unmerged
  deriving DecidableEq

def StatusCode.byte : StatusCode → UInt8
  | unchanged => 46
  | modified => 77
  | typeChanged => 84
  | added => 65
  | deleted => 68
  | renamed => 82
  | copied => 67
  | unmerged => 85

/-- A line of the output. -/
inductive StatusLine where
  | oid (commit : Printed)
  | head (branch : Printed)
  | upstream (name : Printed)
  | ab (ahead behind : Fin (2 ^ 31))
  | stash (count : Nat)
  | ordinary (index worktree : StatusCode) (fields : Vector Field 6) (path : Printed)
  | renamed (index worktree : StatusCode) (fields : Vector Field 7) (path origPath : Printed)
  | unmerged (index worktree : StatusCode) (fields : Vector Field 8) (path : Printed)
  | untracked (path : Printed)
  | ignored (path : Printed)

namespace StatusLine

/-- Fields with a space behind each, and what comes behind them. -/
def spaced (fields : List Bytes) (rest : Bytes) : Bytes := fields.flatMap (· ++ [32]) ++ rest

/-- The fields of the line of a file. -/
def columns (kind : Bytes) (index worktree : StatusCode) (fields : List Field) : List Bytes :=
  kind :: [index.byte, worktree.byte] :: fields.map Field.text

def text : StatusLine → Bytes
  | oid commit => bytes "# branch.oid " ++ commit.text
  | head branch => bytes "# branch.head " ++ branch.text
  | upstream name => bytes "# branch.upstream " ++ name.text
  | ab ahead behind =>
      bytes "# branch.ab +" ++ decimal ahead.val ++ bytes " -" ++ decimal behind.val
  | stash count => bytes "# stash " ++ decimal count
  | ordinary index worktree fields path =>
      spaced (columns (bytes "1") index worktree fields.toList) path.text
  | renamed index worktree fields path origPath =>
      spaced (columns (bytes "2") index worktree fields.toList) (path.text ++ 9 :: origPath.text)
  | unmerged index worktree fields path =>
      spaced (columns (bytes "u") index worktree fields.toList) path.text
  | untracked path => bytes "? " ++ path.text
  | ignored path => bytes "! " ++ path.text

/-- The output. -/
def output (lines : List StatusLine) : Bytes := lines.flatMap fun l => l.text ++ [newline]

/-! ### What the lines say -/

def head? : StatusLine → Option Bytes
  | head branch => some branch.text
  | _ => none

def upstream? : StatusLine → Option Bytes
  | upstream name => some name.text
  | _ => none

def ab? : StatusLine → Option (Nat × Nat)
  | ab ahead behind => some (ahead.val, behind.val)
  | _ => none

/-- An entry of a changed file whose index status is not a dot. -/
def isStaged : StatusLine → Bool
  | ordinary index _ _ _ => index ≠ .unchanged
  | renamed index _ _ _ _ => index ≠ .unchanged
  | _ => false

/-- An entry of a changed file whose worktree status is not a dot. -/
def isModified : StatusLine → Bool
  | ordinary _ worktree _ _ => worktree ≠ .unchanged
  | renamed _ worktree _ _ _ => worktree ≠ .unchanged
  | _ => false

def isUntracked : StatusLine → Bool
  | untracked _ => true
  | _ => false

def conflict? : StatusLine → Option Bytes
  | unmerged _ _ _ path => some path.text
  | _ => none

end StatusLine

open StatusLine

/-- The numbers of lines fit an `int`. -/
structure CountsFit (lines : List StatusLine) : Prop where
  staged : lines.countP isStaged < 2 ^ 31
  modified : lines.countP isModified < 2 ^ 31
  untracked : lines.countP isUntracked < 2 ^ 31
  conflicted : (lines.filterMap conflict?).length < 2 ^ 31

/-- The status has what the lines say; where a header comes again, what the last one says, and
without one the branch that git names otherwise. -/
structure Shows (branch : Bytes) (lines : List StatusLine) (st : Status) : Prop where
  branch : st.branch = (lines.filterMap head?).getLastD branch
  upstream : st.upstream = (lines.filterMap upstream?).getLast?
  ahead : st.ahead.toInt = ((lines.filterMap ab?).getLastD (0, 0)).1
  behind : st.behind.toInt = ((lines.filterMap ab?).getLastD (0, 0)).2
  staged : st.staged.toInt = lines.countP isStaged
  modified : st.modified.toInt = lines.countP isModified
  untracked : st.untracked.toInt = lines.countP isUntracked
  conflicted : st.conflicted.toInt = (lines.filterMap conflict?).length
  conflictedFiles : st.conflictedFiles = lines.filterMap conflict?

/-! ## One line -/

/-- What a line changes. -/
def StatusLine.record (st : Status) : StatusLine → Status
  | head branch => { st with branch := branch.text }
  | upstream name => { st with upstream := some name.text }
  | ab ahead behind =>
      { st with ahead := Int32.ofNat ahead.val, behind := Int32.ofNat behind.val }
  | ordinary index worktree _ _ | renamed index worktree _ _ _ =>
      { st with
        staged := if index ≠ .unchanged then st.staged + 1 else st.staged
        modified := if worktree ≠ .unchanged then st.modified + 1 else st.modified }
  | unmerged _ _ _ path =>
      { st with
        conflicted := st.conflicted + 1
        conflictedFiles := st.conflictedFiles ++ [path.text] }
  | untracked _ => { st with untracked := st.untracked + 1 }
  | oid _ | stash _ | ignored _ => st

theorem findFrom_append {x : UInt8} {pos : Nat} {before after : Bytes} (hpos : pos ≤ before.length)
    (h : x ∉ before.drop pos) : findFrom x pos (before ++ x :: after) = some before.length := by
  have hidx : ((before.drop pos) ++ x :: after).idxOf? x = some (before.drop pos).length := by
    generalize before.drop pos = l at h
    induction l with
    | nil => simp [List.idxOf?_cons]
    | cons y l ih =>
        rw [List.mem_cons, not_or] at h
        rw [List.cons_append, List.idxOf?_cons, ih h.2, if_neg (by simpa using Ne.symm h.1)]
        rfl
  rw [findFrom, List.drop_append_of_le_length hpos, hidx, Option.map_some, List.length_drop]
  exact congrArg some (by omega)

/-- Two texts that differ early on. -/
theorem not_prefix_append {a b rest : Bytes} (k : Nat) (ha : k ≤ a.length) (hb : k ≤ b.length)
    (h : a.take k ≠ b.take k) : ¬ a <+: b ++ rest := by
  rintro ⟨tail, heq⟩
  have htake := congrArg (List.take k) heq
  rw [List.take_append_of_le_length ha, List.take_append_of_le_length hb] at htake
  exact h htake

theorem readCount_decimal (n : Fin (2 ^ 31)) : readCount (decimal n.val) = Int32.ofNat n.val := by
  have hn := n.isLt
  rw [readCount, stoi_decimal (by omega) (by omega), Option.map_some, Option.getD_some]
  exact Int32.ofInt_eq_ofNat

/-- The first number stands between the plus and the space, the second behind the minus that
comes next. -/
theorem readBranchAb_append {name digits tail : Bytes} (hname : (43 : UInt8) ∉ name)
    (hdigits : (32 : UInt8) ∉ digits) (st : Status) :
    readBranchAb (name ++ 43 :: (digits ++ 32 :: 45 :: tail)) st =
      { st with ahead := readCount digits, behind := readCount tail } := by
  have hbefore : name ++ 43 :: (digits ++ 32 :: 45 :: tail) =
      (name ++ 43 :: digits) ++ 32 :: 45 :: tail := by
    simp
  have hplus : findFrom 43 0 (name ++ 43 :: (digits ++ 32 :: 45 :: tail)) = some name.length :=
    findFrom_append (Nat.zero_le _) hname
  have hspace : findFrom 32 name.length (name ++ 43 :: (digits ++ 32 :: 45 :: tail)) =
      some (name.length + digits.length + 1) := by
    rw [hbefore, findFrom_append (by simp) (by simp [hdigits])]
    simp [Nat.add_assoc]
  have hminus : findFrom 45 (name.length + digits.length + 1)
      (name ++ 43 :: (digits ++ 32 :: 45 :: tail)) = some (name.length + digits.length + 2) := by
    have hlength : (name ++ 43 :: digits).length = name.length + digits.length + 1 := by
      simp [Nat.add_assoc]
    rw [hbefore, List.append_cons, ← hlength, findFrom_append (by simp) (by simp)]
    simp [Nat.add_assoc]
  have hahead : ((name ++ 43 :: (digits ++ 32 :: 45 :: tail)).drop (name.length + 1)).take
      (name.length + digits.length + 1 - name.length - 1) = digits := by
    rw [List.append_cons, List.drop_left' (by simp), show name.length + digits.length + 1 -
      name.length - 1 = digits.length by omega, List.take_left]
  have hbehind : (name ++ 43 :: (digits ++ 32 :: 45 :: tail)).drop
      (name.length + digits.length + 2 + 1) = tail := by
    rw [hbefore, List.append_cons, List.append_cons, List.drop_left' (by simp; omega)]
  simp only [readBranchAb, hplus, Option.bind_some, hspace, Option.getD_some, hminus, hahead,
    hbehind]

theorem readBranchAb_text (ahead behind : Fin (2 ^ 31)) (st : Status) :
    readBranchAb (StatusLine.ab ahead behind).text st = (StatusLine.ab ahead behind).record st := by
  have hdigits : (32 : UInt8) ∉ decimal ahead.val := fun h =>
    absurd (lt_of_mem_decimal h) (by decide)
  have htext : (StatusLine.ab ahead behind).text =
      bytes "# branch.ab " ++ 43 :: (decimal ahead.val ++ 32 :: 45 :: decimal behind.val) := by
    have hname : bytes "# branch.ab +" = bytes "# branch.ab " ++ [43] := by decide +kernel
    have hminus : bytes " -" = [32, 45] := by decide +kernel
    rw [StatusLine.text, hname, hminus]
    simp
  rw [htext, readBranchAb_append (by decide +kernel) hdigits, readCount_decimal, readCount_decimal]
  rfl

/-! ## The fields of a line -/

theorem skipFields_space (n : Nat) (s : Bytes) : skipFields n (32 :: s) = skipFields n s := by
  rw [skipFields, readWord_space (by decide)]
  conv_rhs => rw [skipFields]

theorem skipFields_spaced {fields : List Bytes} {n : Nat} (hn : fields.length = n + 1)
    (hfields : ∀ w ∈ fields, w ≠ [] ∧ ∀ c ∈ w, isSpace c = false) (rest : Bytes) :
    skipFields n (spaced fields rest) = some (32 :: rest) := by
  induction fields generalizing n with
  | nil => cases hn
  | cons w fields ih =>
      obtain ⟨⟨hne, hword⟩, htail⟩ := List.forall_mem_cons.1 hfields
      have hstep : spaced (w :: fields) rest = w ++ 32 :: spaced fields rest := by
        simp [spaced]
      rw [hstep, skipFields, readWord_append hne hword (by decide)]
      cases n with
      | zero =>
          have hnil : fields = [] := List.length_eq_zero_iff.1 (by simpa using hn)
          rw [hnil]
          rfl
      | succ n =>
          dsimp only
          rw [skipFields_space]
          exact ih (by simpa using hn) htail

theorem text_of_mem_columns {kind : Bytes} {index worktree : StatusCode} {fields : List Field}
    (hkind : kind ≠ [] ∧ ∀ c ∈ kind, isSpace c = false) :
    ∀ w ∈ columns kind index worktree fields, w ≠ [] ∧ ∀ c ∈ w, isSpace c = false := by
  have hcode : ∀ code : StatusCode, isSpace code.byte = false := by
    intro code
    cases code <;> decide
  intro w hw
  rcases List.mem_cons.1 hw with rfl | hw
  · exact hkind
  · rcases List.mem_cons.1 hw with rfl | hw
    · refine ⟨List.cons_ne_nil _ _, fun c hc => ?_⟩
      rcases List.mem_cons.1 hc with rfl | hc
      · exact hcode index
      · rw [List.mem_singleton.1 hc]
        exact hcode worktree
    · obtain ⟨field, -, rfl⟩ := List.mem_map.1 hw
      exact ⟨field.nonempty, field.noSpace⟩

theorem unmergedPath_text (index worktree : StatusCode) (fields : Vector Field 8) (path : Printed) :
    unmergedPath (StatusLine.unmerged index worktree fields path).text = path.text := by
  have hlength : (columns (bytes "u") index worktree fields.toList).length = 9 + 1 := by
    rw [columns, List.length_cons, List.length_cons, List.length_map, Vector.length_toList]
  have hskip := skipFields_spaced hlength (text_of_mem_columns (by decide)) path.text
  have hbreak : newline ∉ 32 :: path.text := by
    rw [List.mem_cons, not_or]
    exact ⟨by decide, path.noBreak⟩
  simp only [unmergedPath, StatusLine.text, hskip,
    getFields_of_notMem hbreak (List.cons_ne_nil _ _)]
  rfl

theorem readHeader_other {name rest : Bytes} (k : Nat) (hk : k ≤ name.length ∧ k ≤ 12)
    (h : name.take k ≠ (bytes "# branch.head ").take k ∧
      name.take k ≠ (bytes "# branch.upstream ").take k ∧
      name.take k ≠ (bytes "# branch.ab ").take k) (st : Status) :
    readHeader (name ++ rest) st = st := by
  have hlong : k ≤ (bytes "# branch.head ").length ∧ k ≤ (bytes "# branch.upstream ").length ∧
      k ≤ (bytes "# branch.ab ").length := by
    have hlengths : (bytes "# branch.head ").length = 14 ∧
        (bytes "# branch.upstream ").length = 18 ∧ (bytes "# branch.ab ").length = 12 := by
      decide +kernel
    omega
  rw [readHeader, if_neg (not_prefix_append k hlong.1 hk.1 h.1.symm),
    if_neg (not_prefix_append k hlong.2.1 hk.1 h.2.1.symm),
    if_neg (not_prefix_append k hlong.2.2 hk.1 h.2.2.symm)]

theorem readLine_header {line : Bytes} (h : line.head? = some 35) (st : Status) :
    readLine st line = readHeader line st := by
  rw [readLine, h]
  exact if_pos rfl

/-- The codes stand behind the kind and a space. -/
theorem readLine_changed {kind : UInt8} (hkind : kind = 49 ∨ kind = 50)
    (index worktree : StatusCode) (fields : List Field) (rest : Bytes) (st : Status) :
    readLine st (spaced (columns [kind] index worktree fields) rest) =
      { st with
        staged := if index ≠ .unchanged then st.staged + 1 else st.staged
        modified := if worktree ≠ .unchanged then st.modified + 1 else st.modified } := by
  have hcode : ∀ code : StatusCode, (code.byte ≠ 46 ∧ code.byte ≠ 32) ↔ code ≠ .unchanged := by
    intro code
    cases code <;> decide
  have hshape : ∃ tail, spaced (columns [kind] index worktree fields) rest =
      kind :: 32 :: index.byte :: worktree.byte :: tail := ⟨_, rfl⟩
  obtain ⟨tail, hshape⟩ := hshape
  have hread : readLine st (kind :: 32 :: index.byte :: worktree.byte :: tail) =
      readChanged (kind :: 32 :: index.byte :: worktree.byte :: tail) st := by
    rcases hkind with rfl | rfl <;> simp [readLine]
  rw [hshape, hread]
  simp only [readChanged, List.getD_cons_succ, List.getD_cons_zero, hcode]
  by_cases hindex : index = .unchanged <;> by_cases hworktree : worktree = .unchanged <;>
    simp [hindex, hworktree]

theorem readLine_text (st : Status) (l : StatusLine) : readLine st l.text = l.record st := by
  cases l with
  | oid commit =>
      rw [readLine_header rfl]
      exact readHeader_other 10 (by decide +kernel) (by decide +kernel) st
  | head branch =>
      rw [readLine_header rfl, readHeader]
      exact if_pos (List.prefix_append _ _)
  | upstream name =>
      have hno : ¬ bytes "# branch.head " <+: bytes "# branch.upstream " ++ name.text :=
        not_prefix_append 10 (by decide +kernel) (by decide +kernel) (by decide +kernel)
      rw [readLine_header rfl, readHeader, StatusLine.text, if_neg hno]
      exact if_pos (List.prefix_append _ _)
  | ab ahead behind =>
      have hno : ¬ bytes "# branch.head " <+: (StatusLine.ab ahead behind).text ∧
          ¬ bytes "# branch.upstream " <+: (StatusLine.ab ahead behind).text := by
        rw [StatusLine.text, List.append_assoc, List.append_assoc]
        exact ⟨not_prefix_append 10 (by decide +kernel) (by decide +kernel) (by decide +kernel),
          not_prefix_append 10 (by decide +kernel) (by decide +kernel) (by decide +kernel)⟩
      rw [readLine_header rfl, readHeader, if_neg hno.1, if_neg hno.2, ← readBranchAb_text]
      exact if_pos ⟨_, rfl⟩
  | stash count =>
      rw [readLine_header rfl]
      exact readHeader_other 3 (by decide +kernel) (by decide +kernel) st
  | ordinary index worktree fields path => exact readLine_changed (.inl rfl) _ _ _ _ st
  | renamed index worktree fields path origPath => exact readLine_changed (.inr rfl) _ _ _ _ st
  | unmerged index worktree fields path =>
      have hpath := unmergedPath_text index worktree fields path
      have hread : readLine st (StatusLine.unmerged index worktree fields path).text =
          let st := { st with conflicted := st.conflicted + 1 }
          let filename := unmergedPath (StatusLine.unmerged index worktree fields path).text
          if filename = [] then st
          else { st with conflictedFiles := st.conflictedFiles ++ [filename] } := rfl
      rw [hread, hpath]
      exact if_neg path.nonempty
  | untracked path => rfl
  | ignored path => rfl

/-! ## All lines -/

/-- A value that some lines set. -/
theorem foldl_record_last {α : Type} {f : Status → α} {g : StatusLine → Option α}
    (h : ∀ st l, f (StatusLine.record st l) = (g l).getD (f st)) (lines : List StatusLine)
    (st : Status) :
    f (lines.foldl StatusLine.record st) = (lines.filterMap g).getLastD (f st) := by
  induction lines generalizing st with
  | nil => rfl
  | cons l lines ih =>
      rw [List.foldl_cons, ih, h]
      cases hg : g l with
      | none => rw [List.filterMap_cons_none hg, Option.getD_none]
      | some a => rw [List.filterMap_cons_some hg, Option.getD_some, List.getLastD_cons]

/-- A counter that some lines raise; it wraps. -/
theorem foldl_record_count {f : Status → Int32} {p : StatusLine → Bool}
    (h : ∀ st l, f (StatusLine.record st l) = if p l then f st + 1 else f st)
    (lines : List StatusLine) (st : Status) :
    f (lines.foldl StatusLine.record st) = f st + Int32.ofNat (lines.countP p) := by
  induction lines generalizing st with
  | nil => exact (Int32.add_zero _).symm
  | cons l lines ih =>
      rw [List.foldl_cons, ih, h]
      by_cases hp : p l = true
      · rw [if_pos hp, List.countP_cons_of_pos hp, Int32.ofNat_add, Int32.add_assoc]
        exact congrArg (f st + ·) (Int32.add_comm _ _)
      · rw [if_neg hp, List.countP_cons_of_neg hp]

theorem foldl_record_files (lines : List StatusLine) (st : Status) :
    (lines.foldl StatusLine.record st).conflictedFiles =
      st.conflictedFiles ++ lines.filterMap conflict? := by
  induction lines generalizing st with
  | nil => exact (List.append_nil _).symm
  | cons l lines ih =>
      rw [List.foldl_cons, ih]
      cases l with
      | unmerged index worktree fields path => exact List.append_assoc _ _ _
      | _ => rfl

theorem record_counters (st : Status) (l : StatusLine) :
    (l.record st).staged = (if isStaged l then st.staged + 1 else st.staged) ∧
      (l.record st).modified = (if isModified l then st.modified + 1 else st.modified) ∧
      (l.record st).untracked = (if isUntracked l then st.untracked + 1 else st.untracked) ∧
      (l.record st).conflicted =
        if (conflict? l).isSome then st.conflicted + 1 else st.conflicted := by
  cases l with
  | ordinary index worktree fields path =>
      simp [StatusLine.record, isStaged, isModified, isUntracked, conflict?]
  | renamed index worktree fields path origPath =>
      simp [StatusLine.record, isStaged, isModified, isUntracked, conflict?]
  | _ => exact ⟨rfl, rfl, rfl, rfl⟩

theorem record_headers (st : Status) (l : StatusLine) :
    (l.record st).branch = (head? l).getD st.branch ∧
      (l.record st).upstream = ((upstream? l).map some).getD st.upstream ∧
      (l.record st).ahead = ((ab? l).map fun c => Int32.ofNat c.1).getD st.ahead ∧
      (l.record st).behind = ((ab? l).map fun c => Int32.ofNat c.2).getD st.behind := by
  cases l with
  | _ => exact ⟨rfl, rfl, rfl, rfl⟩

/-- Counters that start at zero and do not wrap. -/
theorem toInt_count {n : Nat} (h : n < 2 ^ 31) : (0 + Int32.ofNat n).toInt = n := by
  rw [Int32.zero_add, Int32.toInt_ofNat_of_lt h]

theorem getLastD_filterMap_map {α β γ : Type} (f : α → Option β) (g : β → γ) (d : β) (l : List α) :
    (l.filterMap fun x => (f x).map g).getLastD (g d) = g ((l.filterMap f).getLastD d) := by
  rw [← List.map_filterMap, List.getLastD_map]

/-- The last numbers in a header fit. -/
theorem lastAb_lt (lines : List StatusLine) : ((lines.filterMap ab?).getLastD (0, 0)).1 < 2 ^ 31 ∧
    ((lines.filterMap ab?).getLastD (0, 0)).2 < 2 ^ 31 := by
  rcases List.mem_cons.1 (List.getLastD_mem_cons (l := lines.filterMap ab?) (a := (0, 0))) with
    hzero | hmem
  · rw [hzero]
    decide
  · obtain ⟨l, -, hl⟩ := List.mem_filterMap.1 hmem
    cases l with
    | ab ahead behind =>
        rw [← Option.some.inj hl]
        exact ⟨ahead.isLt, behind.isLt⟩
    | _ => cases hl

/-- A status that was not read yet has what is read. -/
theorem shows_foldl {lines : List StatusLine} (hfit : CountsFit lines) (st : Status)
    (hheaders : st.upstream = none ∧ st.ahead = 0 ∧ st.behind = 0)
    (hcounters : st.staged = 0 ∧ st.modified = 0 ∧ st.untracked = 0 ∧ st.conflicted = 0)
    (hfiles : st.conflictedFiles = []) :
    Shows st.branch lines ((lines.map StatusLine.text).foldl readLine st) := by
  have hrecord : (lines.map StatusLine.text).foldl readLine st =
      lines.foldl StatusLine.record st := by
    rw [List.foldl_map]
    exact congrArg (fun f => lines.foldl f st) (funext fun st => funext (readLine_text st))
  obtain ⟨hupstream, hahead, hbehind⟩ := hheaders
  obtain ⟨hstaged, hmodified, huntracked, hconflicted⟩ := hcounters
  rw [hrecord]
  constructor
  · exact foldl_record_last (fun st l => (record_headers st l).1) lines st
  · rw [foldl_record_last (fun st l => (record_headers st l).2.1) lines st, hupstream,
      ← List.map_filterMap, List.getLastD_eq_getLast?, List.getLast?_map]
    cases (lines.filterMap upstream?).getLast? <;> rfl
  · rw [foldl_record_last (fun st l => (record_headers st l).2.2.1) lines st, hahead]
    have hlast := getLastD_filterMap_map ab? (fun c => Int32.ofNat c.1) (0, 0) lines
    rw [← Int32.toInt_ofNat_of_lt (lastAb_lt lines).1]
    exact congrArg Int32.toInt hlast
  · rw [foldl_record_last (fun st l => (record_headers st l).2.2.2) lines st, hbehind]
    have hlast := getLastD_filterMap_map ab? (fun c => Int32.ofNat c.2) (0, 0) lines
    rw [← Int32.toInt_ofNat_of_lt (lastAb_lt lines).2]
    exact congrArg Int32.toInt hlast
  · rw [foldl_record_count (fun st l => (record_counters st l).1) lines st, hstaged,
      toInt_count hfit.staged]
  · rw [foldl_record_count (fun st l => (record_counters st l).2.1) lines st, hmodified,
      toInt_count hfit.modified]
  · rw [foldl_record_count (fun st l => (record_counters st l).2.2.1) lines st, huntracked,
      toInt_count hfit.untracked]
  · rw [foldl_record_count (fun st l => (record_counters st l).2.2.2) lines st, hconflicted,
      ← List.length_filterMap_eq_countP, toInt_count hfit.conflicted]
  · rw [foldl_record_files, hfiles, List.nil_append]

/-! ## The output -/

/-- Lines have no byte that ends a line or a string. -/
def Clean (s : Bytes) : Prop := newline ∉ s ∧ (0 : UInt8) ∉ s

instance : DecidablePred Clean := fun s => inferInstanceAs (Decidable (newline ∉ s ∧ 0 ∉ s))

theorem Clean.append {s t : Bytes} (hs : Clean s) (ht : Clean t) : Clean (s ++ t) := by
  rw [Clean, List.mem_append, List.mem_append]
  exact ⟨not_or.2 ⟨hs.1, ht.1⟩, not_or.2 ⟨hs.2, ht.2⟩⟩

theorem clean_printed (p : Printed) : Clean p.text := ⟨p.noBreak, p.noNul⟩

theorem clean_decimal (n : Int) : Clean (decimal n) :=
  ⟨fun h => absurd (lt_of_mem_decimal h) (by decide),
    fun h => absurd (lt_of_mem_decimal h) (by decide)⟩

theorem clean_spaced {kind : Bytes} (hkind : Clean kind) (index worktree : StatusCode)
    (fields : List Field) {rest : Bytes} (hrest : Clean rest) :
    Clean (spaced (columns kind index worktree fields) rest) := by
  have hcodes : ∀ x y : StatusCode, Clean [x.byte, y.byte] := by
    intro x y
    cases x <;> cases y <;> decide
  have hfield : ∀ field : Field, Clean field.text := fun field =>
    ⟨fun h => absurd (field.noSpace _ h) (by decide), field.noNul⟩
  have hcolumns : ∀ w ∈ columns kind index worktree fields, Clean (w ++ [32]) := by
    intro w hw
    refine Clean.append ?_ (by decide)
    rcases List.mem_cons.1 hw with rfl | hw
    · exact hkind
    · rcases List.mem_cons.1 hw with rfl | hw
      · exact hcodes index worktree
      · obtain ⟨field, -, rfl⟩ := List.mem_map.1 hw
        exact hfield field
  refine Clean.append ⟨fun h => ?_, fun h => ?_⟩ hrest
  · obtain ⟨w, hw, hmem⟩ := List.mem_flatMap.1 h
    exact (hcolumns w hw).1 hmem
  · obtain ⟨w, hw, hmem⟩ := List.mem_flatMap.1 h
    exact (hcolumns w hw).2 hmem

theorem clean_text (l : StatusLine) : Clean l.text := by
  cases l with
  | oid commit => exact Clean.append (by decide +kernel) (clean_printed _)
  | head branch => exact Clean.append (by decide +kernel) (clean_printed _)
  | upstream name => exact Clean.append (by decide +kernel) (clean_printed _)
  | ab ahead behind =>
      refine Clean.append (Clean.append (Clean.append ?_ (clean_decimal _)) ?_) (clean_decimal _)
      · decide +kernel
      · decide +kernel
  | stash count => exact Clean.append (by decide +kernel) (clean_decimal _)
  | ordinary index worktree fields path =>
      exact clean_spaced (by decide +kernel) _ _ _ (clean_printed _)
  | renamed index worktree fields path origPath =>
      have htab : Clean (path.text ++ [9] ++ origPath.text) :=
        ((clean_printed path).append (by decide)).append (clean_printed origPath)
      rw [List.append_assoc] at htab
      exact clean_spaced (by decide +kernel) _ _ _ htab
  | unmerged index worktree fields path =>
      exact clean_spaced (by decide +kernel) _ _ _ (clean_printed _)
  | untracked path => exact Clean.append (by decide +kernel) (clean_printed _)
  | ignored path => exact Clean.append (by decide +kernel) (clean_printed _)

theorem text_ne_nil (l : StatusLine) : l.text ≠ [] := by
  cases l <;> exact List.cons_ne_nil _ _

theorem getFields_execOutput {host : ClientHost} {cmd : Bytes} {lines : List StatusLine}
    (h : host.popen (cstr cmd) = some (output lines)) :
    getFields newline (Client.execOutput host cmd) = lines.map StatusLine.text := by
  have hnul : (0 : UInt8) ∉ output lines := by
    intro hmem
    obtain ⟨l, -, hl⟩ := List.mem_flatMap.1 hmem
    rcases List.mem_append.1 hl with hl | hl
    · exact (clean_text l).2 hl
    · exact absurd (List.mem_singleton.1 hl) (by decide)
  have hpipe : readPipe 128 (output lines) = output lines :=
    (readPipe_eq_self (by decide)).2 hnul
  rw [Client.execOutput, h]
  dsimp only
  rw [hpipe]
  rcases lines.eq_nil_or_concat with rfl | ⟨lines, l, hlines⟩
  · rfl
  · rw [List.concat_eq_append] at hlines
    subst hlines
    have hlast : output (lines ++ [l]) =
        ((lines.map StatusLine.text).flatMap (· ++ [newline]) ++ l.text) ++ [newline] := by
      simp [output, List.flatMap_map]
    have hfields : ∀ f ∈ lines.map StatusLine.text, newline ∉ f := by
      intro f hf
      obtain ⟨l', -, rfl⟩ := List.mem_map.1 hf
      exact (clean_text l').1
    rw [hlast, List.getLast?_concat, if_pos rfl, List.dropLast_concat,
      getFields_flatMap_append hfields, getFields_of_notMem (clean_text l).1 (text_ne_nil l),
      List.map_append]
    rfl

theorem lastHead_ne_nil (lines : List StatusLine) {branch : Bytes} (h : branch ≠ []) :
    (lines.filterMap head?).getLastD branch ≠ [] := by
  rcases List.mem_cons.1 (List.getLastD_mem_cons (l := lines.filterMap head?) (a := branch)) with
    heq | hmem
  · rw [heq]
    exact h
  · obtain ⟨l, -, hl⟩ := List.mem_filterMap.1 hmem
    cases l with
    | head branch =>
        rw [← Option.some.inj hl]
        exact branch.nonempty
    | _ => cases hl

theorem currentBranch_ne_nil (host : ClientHost) (c : Client) : c.currentBranch host ≠ [] := by
  rw [Client.currentBranch]
  split
  · decide +kernel
  · next h => exact h

/-- The client reads all that git prints. -/
theorem status_shows {host : ClientHost} {c : Client} {lines : List StatusLine}
    (hrepo : c.isRepo host = true)
    (hprinted : host.popen (cstr c.statusCommand) = some (output lines))
    (hfit : CountsFit lines) : Shows (c.currentBranch host) lines (c.status host) := by
  have hshows := shows_foldl hfit
    { inRepo := true
      hasCommits := c.hasCommits host
      branch := c.currentBranch host
      originUrl := c.getOrigin host
      hasOrigin := (c.getOrigin host).isSome
      state := c.detectRepoState host } ⟨rfl, rfl, rfl⟩ ⟨rfl, rfl, rfl, rfl⟩ rfl
  rw [Client.status, if_pos hrepo]
  dsimp only
  rw [getFields_execOutput hprinted]
  split
  · next hnil =>
      rw [hshows.branch] at hnil
      exact absurd hnil (lastHead_ne_nil lines (currentBranch_ne_nil host c))
  · exact hshows

/-! ## A merge with a conflict -/

def fieldN : Field := ⟨bytes "N...", by decide +kernel, by decide +kernel, by decide +kernel⟩

def fieldMode : Field := ⟨bytes "100644", by decide +kernel, by decide +kernel, by decide +kernel⟩

def fieldHash : Field :=
  ⟨bytes "257cc5642cb1a054f08cc83f2d943e56fd3ebe99", by decide +kernel, by decide +kernel,
    by decide +kernel⟩

/-- A file of the merge is in conflict; its name begins with a space. -/
def conflictLines : List StatusLine :=
  [.head ⟨bytes "main", by decide +kernel, by decide +kernel, by decide +kernel⟩,
    .upstream ⟨bytes "origin/main", by decide +kernel, by decide +kernel, by decide +kernel⟩,
    .ab 2 1,
    .ordinary .modified .unchanged
      ⟨#[fieldN, fieldMode, fieldMode, fieldMode, fieldHash, fieldHash], rfl⟩
      ⟨bytes "a.txt", by decide +kernel, by decide +kernel, by decide +kernel⟩,
    .unmerged .unmerged .unmerged
      ⟨#[fieldN, fieldMode, fieldMode, fieldMode, fieldMode, fieldHash, fieldHash, fieldHash], rfl⟩
      ⟨bytes " b c.txt", by decide +kernel, by decide +kernel, by decide +kernel⟩]

/-- Git in that repository. -/
def conflictHost : ClientHost where
  system _ := 0
  popen cmd :=
    if (find (bytes "git status") cmd).isSome then some (output conflictLines)
    else if (find (bytes "git branch") cmd).isSome then some (bytes "main\n")
    else some (bytes "/srv/app.git\n")
  fileExists path := path = bytes "/srv/app/.git/MERGE_HEAD"

theorem status_shows_conflict :
    let st := Client.status conflictHost ⟨bytes "/srv/app"⟩
    Shows (bytes "main") conflictLines st ∧ st.conflictedFiles = [bytes " b c.txt"] := by
  have hbranch : Client.currentBranch conflictHost ⟨bytes "/srv/app"⟩ = bytes "main" := by
    decide +kernel
  have hprinted : conflictHost.popen (cstr (Client.statusCommand ⟨bytes "/srv/app"⟩)) =
      some (output conflictLines) := by
    decide +kernel
  have hshows := @status_shows conflictHost ⟨bytes "/srv/app"⟩ conflictLines (by decide +kernel)
    hprinted ⟨by decide +kernel, by decide +kernel, by decide +kernel, by decide +kernel⟩
  rw [hbranch] at hshows
  exact ⟨hshows, hshows.conflictedFiles⟩

end Nazg.Git

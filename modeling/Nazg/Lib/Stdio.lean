import Nazg.Lib.Bytes

/-!
# Reading a child's output

`popen`, a loop of `fgets` and `pclose`, as C programs collect what a command prints.
`fgets` stops after a line break or when its buffer is full; the buffer then goes on as
a C string, so what stands behind a zero byte in it is lost. The loop is faithful on
exactly the outputs without one (`readPipe_eq_self`).
-/

namespace Nazg.Lib

abbrev newline : UInt8 := 10

/-- `fgets` into a buffer with room for `n` bytes and the terminator. -/
def fgets : Nat → Bytes → Bytes × Bytes
  | 0, s => ([], s)
  | _ + 1, [] => ([], [])
  | n + 1, c :: s =>
      if c = newline then ([c], s)
      else
        let r := fgets n s
        (c :: r.1, r.2)

/-- `while (fgets(buffer, size, pipe)) output += buffer;`. Each turn takes at least one
byte, which bounds the turns. -/
def readLines (size : Nat) : Nat → Bytes → Bytes
  | 0, _ => []
  | fuel + 1, s =>
      if s = [] then []
      else
        let r := fgets (size - 1) s
        cstr r.1 ++ readLines size fuel r.2

def readPipe (size : Nat) (s : Bytes) : Bytes := readLines size s.length s

/-- The wait status of a child. -/
inductive WaitStatus where
  | exited (code : UInt8)
  | signaled (signal : UInt8)
  deriving DecidableEq

/-- `WIFEXITED(status) ? WEXITSTATUS(status) : -1`. -/
def WaitStatus.exitCode : WaitStatus → Int
  | exited code => code.toNat
  | signaled _ => -1

theorem fgets_append (n : Nat) (s : Bytes) : (fgets n s).1 ++ (fgets n s).2 = s := by
  induction n generalizing s with
  | zero => rfl
  | succ n ih =>
      cases s with
      | nil => rfl
      | cons c s =>
          rw [fgets]
          split
          · rfl
          · exact congrArg (c :: ·) (ih s)

theorem fgets_ne_nil {n : Nat} {s : Bytes} (hs : s ≠ []) : (fgets (n + 1) s).1 ≠ [] := by
  cases s with
  | nil => exact absurd rfl hs
  | cons c s =>
      rw [fgets]
      split <;> exact List.cons_ne_nil _ _

theorem zero_notMem_readLines (size fuel : Nat) (s : Bytes) :
    (0 : UInt8) ∉ readLines size fuel s := by
  induction fuel generalizing s with
  | zero => exact List.not_mem_nil
  | succ fuel ih =>
      rw [readLines]
      split
      · exact List.not_mem_nil
      · exact fun h => (List.mem_append.1 h).elim (zero_notMem_cstr _) (ih _)

theorem readLines_eq_self {size : Nat} (hsize : 2 ≤ size) {fuel : Nat} {s : Bytes}
    (hfuel : s.length ≤ fuel) (h0 : (0 : UInt8) ∉ s) : readLines size fuel s = s := by
  obtain ⟨n, rfl⟩ : ∃ n, size = n + 2 := ⟨size - 2, by omega⟩
  induction fuel generalizing s with
  | zero => rw [readLines, List.length_eq_zero_iff.1 (Nat.le_zero.1 hfuel)]
  | succ fuel ih =>
      rw [readLines]
      split
      · next hs => exact hs.symm
      · next hs =>
          have happ : (fgets (n + 1) s).1 ++ (fgets (n + 1) s).2 = s := fgets_append (n + 1) s
          have hpos : 0 < (fgets (n + 1) s).1.length := List.length_pos_iff.2 (fgets_ne_nil hs)
          have hlen := congrArg List.length happ
          rw [List.length_append] at hlen
          rw [← happ, List.mem_append, not_or] at h0
          show cstr (fgets (n + 1) s).1 ++ readLines (n + 2) fuel (fgets (n + 1) s).2 = s
          rw [ih (by omega) h0.2, cstr_eq_self.2 h0.1, happ]

/-- The output arrives whole when no zero byte is in it, and only then. -/
theorem readPipe_eq_self {size : Nat} (hsize : 2 ≤ size) {s : Bytes} :
    readPipe size s = s ↔ (0 : UInt8) ∉ s :=
  ⟨fun h => h ▸ zero_notMem_readLines size s.length s,
    readLines_eq_self hsize (Nat.le_refl _)⟩

end Nazg.Lib

import Mathlib.Data.List.Lex
import Mathlib.Data.List.TakeWhile
import Mathlib.Algebra.Ring.Int.Defs
import Mathlib.Algebra.GroupWithZero.Nat
import Mathlib.Order.Lattice

/-!
# Byte strings

A `std::string` is a sequence of bytes, so the model's strings are lists of
`UInt8` and nothing in them is decoded. What is here is the part of the string
interface that programs of this kind lean on: comparison as unsigned bytes (the
order of a `std::map` key), the substring search, and the truncation a string
suffers when it crosses a C interface as a pointer to a terminated buffer.

A `Text` is a byte string that survives that crossing. It carries the proof, so
whatever is built from a C string never has to be re-checked.
-/

namespace Nazg.Lib

/-- A byte string. -/
abbrev Bytes := List UInt8

/-- The bytes of an ASCII literal. -/
def bytes (s : String) : Bytes := s.toList.map Char.toUInt8

abbrev quote : UInt8 := 34
abbrev backslash : UInt8 := 92
abbrev openBracket : UInt8 := 91
abbrev closeBracket : UInt8 := 93
abbrev openBrace : UInt8 := 123
abbrev closeBrace : UInt8 := 125

instance linearOrderUInt8 : LinearOrder UInt8 where
  le_refl := UInt8.le_refl
  le_trans _ _ _ := UInt8.le_trans
  lt_iff_le_not_ge a b := by
    rw [UInt8.not_le]
    exact ⟨fun h => ⟨UInt8.le_of_lt h, h⟩, And.right⟩
  le_antisymm _ _ := UInt8.le_antisymm
  le_total := UInt8.le_total
  toDecidableLE := inferInstance
  toDecidableEq := inferInstance
  toDecidableLT := inferInstance
  min_def _ _ := rfl
  max_def _ _ := rfl

instance lawfulBEqUInt8 : LawfulBEq UInt8 := inferInstance

instance lawfulBEqBytes : LawfulBEq Bytes := inferInstance

/-- A fact about bytes can be checked byte by byte. -/
theorem forall_byte {p : UInt8 → Prop} (h : ∀ n : Fin 256, p (UInt8.ofFin n)) (c : UInt8) :
    p c := by
  have hc := h c.toFin
  rwa [UInt8.ofFin_toFin] at hc

/-- A condition on every byte of a string is decided along the string. -/
instance (priority := 2000) decidableForallMem (p : UInt8 → Prop) [DecidablePred p] (s : Bytes) :
    Decidable (∀ c ∈ s, p c) := List.decidableBAll p s

/-! ## C strings -/

/-- What is left of a string read through `c_str()` up to the terminator. -/
def cstr (s : Bytes) : Bytes := s.takeWhile (· ≠ 0)

theorem zero_notMem_cstr (s : Bytes) : (0 : UInt8) ∉ cstr s := by
  intro h
  simpa using List.mem_takeWhile_imp h

theorem cstr_eq_self {s : Bytes} : cstr s = s ↔ (0 : UInt8) ∉ s := by
  refine ⟨fun h => h ▸ zero_notMem_cstr s, fun h => ?_⟩
  rw [cstr, List.takeWhile_eq_self_iff]
  intro b hb
  have hne : b ≠ 0 := fun h0 => h (h0 ▸ hb)
  simpa using hne

@[simp] theorem cstr_cstr (s : Bytes) : cstr (cstr s) = cstr s :=
  cstr_eq_self.2 (zero_notMem_cstr s)

theorem cstr_append {a : Bytes} (h : (0 : UInt8) ∉ a) (b : Bytes) :
    cstr (a ++ b) = a ++ cstr b := by
  refine List.takeWhile_append_of_pos fun c hc => decide_eq_true ?_
  rintro rfl
  exact h hc

theorem cstr_append_of_mem {a : Bytes} (h : (0 : UInt8) ∈ a) (b : Bytes) :
    cstr (a ++ b) = cstr a := by
  obtain ⟨x, y, rfl, hx⟩ := List.eq_append_cons_of_mem h
  rw [List.append_assoc, cstr_append hx, cstr_append hx, List.cons_append]
  rfl

/-- A string with no terminator inside: what a C interface hands over whole. -/
structure Text where
  bytes : Bytes
  nulFree : (0 : UInt8) ∉ bytes
  deriving DecidableEq

/-- Crossing the interface keeps what stands before the first terminator. -/
def Text.ofCStr (s : Bytes) : Text := ⟨cstr s, zero_notMem_cstr s⟩

@[simp] theorem Text.ofCStr_bytes (s : Bytes) : (Text.ofCStr s).bytes = cstr s := rfl

@[ext] theorem Text.ext {a b : Text} (h : a.bytes = b.bytes) : a = b := by
  cases a; cases b; cases h; rfl

@[simp] theorem Text.cstr_bytes (t : Text) : cstr t.bytes = t.bytes :=
  cstr_eq_self.2 t.nulFree

@[simp] theorem Text.ofCStr_self (t : Text) : Text.ofCStr t.bytes = t :=
  Text.ext t.cstr_bytes

/-! ## Fields -/

/-- What stands before and after the first separator, if there is one. -/
def cut (c : UInt8) (s : Bytes) : Option (Bytes × Bytes) :=
  match s.dropWhile (· ≠ c) with
  | [] => none
  | _ :: rest => some (s.takeWhile (· ≠ c), rest)

theorem cut_append {c : UInt8} {a : Bytes} (h : c ∉ a) (b : Bytes) :
    cut c (a ++ c :: b) = some (a, b) := by
  have hne : ∀ x ∈ a, decide (x ≠ c) = true := by
    intro x hx
    have hxc : x ≠ c := fun heq => h (heq ▸ hx)
    simpa using hxc
  rw [cut, List.takeWhile_append_of_pos hne, List.dropWhile_append_of_pos hne]
  simp

theorem eq_of_cut {c : UInt8} {s a b : Bytes} (h : cut c s = some (a, b)) :
    s = a ++ c :: b ∧ c ∉ a := by
  rw [cut] at h
  split at h
  · cases h
  · next d rest hdrop =>
      cases h
      have hd : d = c := by
        have hhead := List.head?_dropWhile_not (fun x => decide (x ≠ c)) s
        rw [hdrop] at hhead
        simpa using hhead
      refine ⟨?_, fun hc => by simpa using List.mem_takeWhile_imp hc⟩
      rw [hd] at hdrop
      rw [← hdrop, List.takeWhile_append_dropWhile]

/-! ## Substring search -/

/-- `s.find(pat)`: the least position where `pat` starts. -/
def find (pat : Bytes) : Bytes → Option Nat
  | [] => if pat = [] then some 0 else none
  | c :: s => if pat <+: c :: s then some 0 else (find pat s).map (· + 1)

/-- No occurrence of `pat` starts inside `region` when `rest` follows it. -/
def NoMatch (pat region rest : Bytes) : Prop :=
  ∀ a b, region = a ++ b → b ≠ [] → ¬ pat <+: b ++ rest

theorem NoMatch.nil (pat rest : Bytes) : NoMatch pat [] rest := by
  intro a b h hb
  exact absurd (List.append_eq_nil_iff.1 h.symm).2 hb

theorem NoMatch.cons {pat region rest : Bytes} {c : UInt8}
    (hc : ¬ pat <+: c :: (region ++ rest)) (h : NoMatch pat region rest) :
    NoMatch pat (c :: region) rest := by
  intro a b hab hb
  cases a with
  | nil =>
      rw [List.nil_append] at hab
      subst hab
      exact hc
  | cons x a =>
      rw [List.cons_append, List.cons.injEq] at hab
      exact h a b hab.2 hb

theorem NoMatch.append {pat r₁ r₂ rest : Bytes}
    (h₁ : NoMatch pat r₁ (r₂ ++ rest)) (h₂ : NoMatch pat r₂ rest) :
    NoMatch pat (r₁ ++ r₂) rest := by
  induction r₁ with
  | nil => exact h₂
  | cons c r₁ ih =>
      refine NoMatch.cons ?_ (ih fun a b hab hb => h₁ (c :: a) b (by rw [hab]; rfl) hb)
      rw [show r₁.append r₂ = r₁ ++ r₂ from rfl, List.append_assoc]
      exact h₁ [] (c :: r₁) rfl (List.cons_ne_nil _ _)

/-- A region that never holds the first byte of the pattern holds no start. -/
theorem NoMatch.of_head_notMem {c : UInt8} {pat region : Bytes} (rest : Bytes)
    (h : c ∉ region) : NoMatch (c :: pat) region rest := by
  intro a b hab hb hpre
  cases b with
  | nil => exact hb rfl
  | cons x b =>
      have hx : c = x := by simpa using (List.cons_prefix_cons.1 hpre).1
      exact h (by rw [hab, hx]; simp)

/-- The search skips a region with no start in it. -/
theorem find_append {pat region rest : Bytes} (h : NoMatch pat region rest) :
    find pat (region ++ rest) = (find pat rest).map (· + region.length) := by
  induction region with
  | nil => simp
  | cons c region ih =>
      have hc : ¬ pat <+: c :: (region ++ rest) :=
        h [] (c :: region) rfl (List.cons_ne_nil _ _)
      have hr : NoMatch pat region rest :=
        fun a b hab hb => h (c :: a) b (by rw [hab]; rfl) hb
      rw [List.cons_append, find, if_neg hc, ih hr, Option.map_map]
      cases find pat rest with
      | none => rfl
      | some n => simp only [Option.map_some, Function.comp, List.length_cons, Nat.add_assoc]

/-- The search stops where the pattern stands. -/
theorem find_self (pat rest : Bytes) : find pat (pat ++ rest) = some 0 := by
  cases h : pat ++ rest with
  | nil => simp [find, (List.append_eq_nil_iff.1 h).1]
  | cons c s => rw [find, if_pos (h ▸ List.prefix_append pat rest)]

theorem find_region {pat region rest : Bytes} (h : NoMatch pat region (pat ++ rest)) :
    find pat (region ++ (pat ++ rest)) = some region.length := by
  rw [find_append h, find_self]
  simp

/-- The search succeeds exactly on a substring. -/
theorem isSome_find {pat s : Bytes} : (find pat s).isSome ↔ pat <:+: s := by
  induction s with
  | nil =>
      rw [find, List.infix_nil]
      split
      · next h => simp [h]
      · next h => simp [h]
  | cons c s ih =>
      rw [find, List.infix_cons_iff, ← ih]
      split
      · next h => simp [h]
      · next h => simp [h]

/-! ## Little-endian words -/

/-- The memory image of a `uint32_t`. -/
def le32 (n : UInt32) : Bytes :=
  [UInt8.ofNat n.toNat, UInt8.ofNat (n.toNat / 256), UInt8.ofNat (n.toNat / 65536),
    UInt8.ofNat (n.toNat / 16777216)]

def ofLe32 (a b c d : UInt8) : UInt32 :=
  UInt32.ofNat (a.toNat + 256 * b.toNat + 65536 * c.toNat + 16777216 * d.toNat)

theorem ofLe32_le32 (n : UInt32) :
    ofLe32 (UInt8.ofNat n.toNat) (UInt8.ofNat (n.toNat / 256)) (UInt8.ofNat (n.toNat / 65536))
      (UInt8.ofNat (n.toNat / 16777216)) = n := by
  have hn : n.toNat < 4294967296 := n.toNat_lt
  apply UInt32.toNat.inj
  simp only [ofLe32, UInt32.toNat_ofNat', UInt8.toNat_ofNat']
  omega

end Nazg.Lib

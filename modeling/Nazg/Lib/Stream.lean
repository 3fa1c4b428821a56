import Nazg.Lib.Bytes

/-!
# Reading from a byte stream

A connected socket, from the side of its reader: the pieces in which the bytes will
arrive, and the moments at which a receive gives up because nothing came in time.
One `recv` takes at most what was asked for from the first piece; the end of the
list is a closed connection. A reader that must have `n` bytes calls `recv` until it
has them.

What such a reader obtains does not depend on the pieces, only on the bytes that
arrive before the first stall (`readExact_of_le`, `readExact_of_lt`).
-/

namespace Nazg.Lib

/-- What the next receive on a socket meets. -/
inductive Arrival where
  | data (chunk : Bytes)
  | stall
  deriving DecidableEq

/-- `recv(fd, buf, n, 0)`; `none` is a result that is not positive. -/
def recv (n : Nat) : List Arrival → Option (Bytes × List Arrival)
  | [] => none
  | .stall :: _ => none
  | .data chunk :: s =>
      if chunk = [] ∨ n = 0 then none
      else if n < chunk.length then some (chunk.take n, .data (chunk.drop n) :: s)
      else some (chunk, s)

/-- The receive loop of a reader that wants `n` bytes; each turn brings at least one,
so `n` turns are enough. -/
def readLoop : Nat → Nat → List Arrival → Option (Bytes × List Arrival)
  | _, 0, s => some ([], s)
  | 0, _ + 1, _ => none
  | fuel + 1, n + 1, s =>
      match recv (n + 1) s with
      | none => none
      | some (got, s) =>
          (readLoop fuel (n + 1 - got.length) s).map fun r => (got ++ r.1, r.2)

def readExact (n : Nat) (s : List Arrival) : Option (Bytes × List Arrival) := readLoop n n s

/-- The bytes that arrive before the first stall or the end. -/
def available : List Arrival → Bytes
  | [] => []
  | .stall :: _ => []
  | .data chunk :: s => chunk ++ available s

/-- No piece is empty: the network hands over at least one byte at a time. -/
def Flowing (s : List Arrival) : Prop := ∀ chunk, .data chunk ∈ s → chunk ≠ []

/-- The pieces of a byte string, none of them empty and no stall between them. -/
def Splits (s : List Arrival) (bytes : Bytes) : Prop :=
  Flowing s ∧ .stall ∉ s ∧ available s = bytes

theorem Flowing.tail {a : Arrival} {s : List Arrival} (h : Flowing (a :: s)) : Flowing s :=
  fun chunk hc => h chunk (List.mem_cons_of_mem _ hc)

/-- One receive takes a non-empty prefix of what is available. -/
theorem recv_spec {n : Nat} (hn : n ≠ 0) {s : List Arrival} (hs : Flowing s) :
    (recv n s = none ∧ available s = []) ∨
      ∃ got s', recv n s = some (got, s') ∧ got ≠ [] ∧ got.length ≤ n ∧
        available s = got ++ available s' ∧ Flowing s' ∧ (.stall ∉ s → .stall ∉ s') := by
  cases s with
  | nil => exact Or.inl ⟨rfl, rfl⟩
  | cons a s =>
      cases a with
      | stall => exact Or.inl ⟨rfl, rfl⟩
      | data chunk =>
          have hne : chunk ≠ [] := hs chunk List.mem_cons_self
          have hflow : Flowing s := hs.tail
          refine Or.inr ?_
          rw [recv, if_neg (not_or.2 ⟨hne, hn⟩)]
          split
          · next hlt =>
              refine ⟨chunk.take n, .data (chunk.drop n) :: s, rfl, ?_, ?_, ?_, ?_, ?_⟩
              · simp [hn, hne]
              · rw [List.length_take]
                omega
              · rw [available, available, ← List.append_assoc, List.take_append_drop]
              · intro c hc
                rcases List.mem_cons.1 hc with h | h
                · obtain rfl := Arrival.data.inj h
                  intro h0
                  have hlen := congrArg List.length h0
                  rw [List.length_drop, List.length_nil] at hlen
                  omega
                · exact hflow c h
              · intro hst h
                rcases List.mem_cons.1 h with h | h
                · cases h
                · exact hst (List.mem_cons_of_mem _ h)
          · next hle =>
              exact ⟨chunk, s, rfl, hne, by omega, rfl, hflow,
                fun hst h => hst (List.mem_cons_of_mem _ h)⟩

theorem readLoop_spec : ∀ (n fuel : Nat) (s : List Arrival), n ≤ fuel → Flowing s →
    (n ≤ (available s).length →
      ∃ s', readLoop fuel n s = some ((available s).take n, s') ∧
        available s' = (available s).drop n ∧ Flowing s' ∧ (.stall ∉ s → .stall ∉ s')) ∧
    ((available s).length < n → readLoop fuel n s = none) := by
  intro n
  induction n using Nat.strongRecOn with
  | _ n ih =>
      intro fuel s hfuel hs
      cases n with
      | zero =>
          refine ⟨fun _ => ⟨s, ?_, ?_, hs, id⟩, fun h => absurd h (Nat.not_lt_zero _)⟩
          · cases fuel <;> simp [readLoop]
          · simp
      | succ n =>
          obtain ⟨fuel, rfl⟩ : ∃ m, fuel = m + 1 := ⟨fuel - 1, by omega⟩
          rcases recv_spec (Nat.succ_ne_zero n) hs with ⟨hrecv, havail⟩ |
            ⟨got, s₁, hrecv, hne, hle, havail, hflow, hstall⟩
          · refine ⟨fun h => ?_, fun _ => by rw [readLoop, hrecv]⟩
            rw [havail] at h
            exact absurd h (by simp)
          · have hpos : 0 < got.length := List.length_pos_iff.2 hne
            have hlen : (available s).length = got.length + (available s₁).length := by
              rw [havail, List.length_append]
            obtain ⟨hok, hfail⟩ := ih (n + 1 - got.length) (by omega) fuel s₁ (by omega) hflow
            constructor
            · intro h
              obtain ⟨s', hrun, hdrop, hflow', hstall'⟩ := hok (by omega)
              refine ⟨s', ?_, ?_, hflow', fun hst => hstall' (hstall hst)⟩
              · simp only [readLoop, hrecv, hrun, Option.map_some, Option.some_inj, Prod.mk.injEq,
                  and_true]
                rw [havail, List.take_append, List.take_of_length_le hle]
              · rw [hdrop, havail, List.drop_append, List.drop_eq_nil_of_le hle, List.nil_append]
            · intro h
              simp only [readLoop, hrecv, hfail (by omega), Option.map_none]

/-- A reader gets its bytes once they arrive, in whatever pieces. -/
theorem readExact_of_le {n : Nat} {s : List Arrival} (hs : Flowing s)
    (h : n ≤ (available s).length) :
    ∃ s', readExact n s = some ((available s).take n, s') ∧
      available s' = (available s).drop n ∧ Flowing s' ∧ (.stall ∉ s → .stall ∉ s') :=
  (readLoop_spec n n s (Nat.le_refl n) hs).1 h

/-- A reader fails when the stream stalls or ends before it has its bytes. -/
theorem readExact_of_lt {n : Nat} {s : List Arrival} (hs : Flowing s)
    (h : (available s).length < n) : readExact n s = none :=
  (readLoop_spec n n s (Nat.le_refl n) hs).2 h

/-- What a successful read took off the front of the stream. -/
theorem readExact_some {n : Nat} {s s' : List Arrival} {b : Bytes} (hs : Flowing s)
    (h : readExact n s = some (b, s')) :
    b.length = n ∧ available s = b ++ available s' ∧ Flowing s' ∧ (.stall ∉ s → .stall ∉ s') := by
  by_cases hle : n ≤ (available s).length
  · obtain ⟨s₁, hok, havail, hflow, hstall⟩ := readExact_of_le hs hle
    rw [hok] at h
    cases h
    refine ⟨by rw [List.length_take]; omega, ?_, hflow, hstall⟩
    rw [havail, List.take_append_drop]
  · rw [readExact_of_lt hs (by omega)] at h
    cases h

/-! ## Later arrivals

What has been read stays read when more arrives behind it. -/

theorem recv_append {n : Nat} {s s' : List Arrival} {b : Bytes} (t : List Arrival)
    (h : recv n s = some (b, s')) : recv n (s ++ t) = some (b, s' ++ t) := by
  cases s with
  | nil => cases h
  | cons a s =>
      cases a with
      | stall => cases h
      | data chunk =>
          rw [List.cons_append, recv] at *
          split at h
          · cases h
          · next hne =>
              rw [if_neg hne]
              split at h
              · next hlt =>
                  cases h
                  rw [if_pos hlt]
                  rfl
              · next hle =>
                  cases h
                  rw [if_neg hle]

theorem readLoop_append {fuel n : Nat} {s s' : List Arrival} {b : Bytes} (t : List Arrival)
    (h : readLoop fuel n s = some (b, s')) : readLoop fuel n (s ++ t) = some (b, s' ++ t) := by
  induction fuel generalizing n s b with
  | zero =>
      cases n with
      | zero =>
          cases h
          rfl
      | succ n => cases h
  | succ fuel ih =>
      cases n with
      | zero =>
          cases h
          rfl
      | succ n =>
          rw [readLoop] at h ⊢
          split at h
          · cases h
          · next got s₁ hrecv =>
              obtain ⟨⟨rest, s₂⟩, hloop, hout⟩ := Option.map_eq_some_iff.1 h
              cases hout
              rw [recv_append t hrecv]
              simp only [ih hloop, Option.map_some]

theorem readExact_append {n : Nat} {s s' : List Arrival} {b : Bytes} (t : List Arrival)
    (h : readExact n s = some (b, s')) : readExact n (s ++ t) = some (b, s' ++ t) :=
  readLoop_append t h

theorem available_append_data {s : List Arrival} (h : .stall ∉ s) (chunk : Bytes) :
    available (s ++ [.data chunk]) = available s ++ chunk := by
  induction s with
  | nil => exact List.append_nil chunk
  | cons a s ih =>
      rw [List.mem_cons, not_or] at h
      cases a with
      | stall => exact absurd rfl h.1
      | data c => rw [List.cons_append, available, available, ih h.2, List.append_assoc]

theorem Flowing.append_data {s : List Arrival} (h : Flowing s) {chunk : Bytes} (hne : chunk ≠ []) :
    Flowing (s ++ [.data chunk]) := by
  intro c hc
  rcases List.mem_append.1 hc with hc | hc
  · exact h c hc
  · rw [List.mem_singleton, Arrival.data.injEq] at hc
    rwa [hc]

theorem Splits.single {b : Bytes} (h : b ≠ []) : Splits [.data b] b := by
  refine ⟨?_, by simp, List.append_nil b⟩
  intro chunk hc
  rw [List.mem_singleton, Arrival.data.injEq] at hc
  rwa [hc]

theorem available_eq_nil {s : List Arrival} (h : Splits s []) : s = [] := by
  obtain ⟨hflow, hstall, havail⟩ := h
  cases s with
  | nil => rfl
  | cons a s =>
      cases a with
      | stall => exact absurd List.mem_cons_self hstall
      | data chunk =>
          rw [available, List.append_eq_nil_iff] at havail
          exact absurd havail.1 (hflow chunk List.mem_cons_self)

end Nazg.Lib

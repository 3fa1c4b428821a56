import Nazg.Git.Gitea
import Nazg.Lib.Words

/-!
# The token of the administrator

The token stands behind the word `created:`. It is cut off one byte behind the first letter
of that word, and where the word is not in the output, behind the first colon of it.

`tokenRead_iff` says for which outputs this is what it should be.
-/

namespace Nazg.Git.GiteaServer

open Lib

/-- The output of a command that made a token. -/
def Announces (output token : Bytes) : Prop :=
  ∃ before, (58 : UInt8) ∉ before ∧ (∀ c ∈ token, isSpace c = false) ∧
    output = before ++ (bytes "created: " ++ token ++ [newline])

/-- What the command printed, as far as it is read. -/
def tokenOutput (popen : Popen) (s : GiteaServer) : Bytes :=
  (s.sshExec popen accessTokenCommand).2

/-- The token is returned and takes its places, and without one nothing happens. -/
structure TokenRead (popen : Popen) (s : GiteaServer) : Prop where
  announced : ∀ token, Announces (tokenOutput popen s) token →
    s.createAdminToken popen = (some token, s.withToken token)
  silent : ¬ bytes "created:" <:+: tokenOutput popen s → s.createAdminToken popen = (none, s)

section

variable {popen : Popen} {s : GiteaServer}

theorem createAdminToken_of_created {pos : Nat}
    (h : find (bytes "created:") (tokenOutput popen s) = some pos) :
    (s.createAdminToken popen).1 = some (trim ((tokenOutput popen s).drop (pos + 1))) := by
  rw [createAdminToken, if_neg (Bool.noConfusion ·), ← tokenOutput]
  dsimp only
  rw [h]

theorem createAdminToken_of_not_created (h : ¬ bytes "created:" <:+: tokenOutput popen s) :
    s.createAdminToken popen =
      match find (bytes ":") (tokenOutput popen s) with
      | some pos =>
          let token := trim ((tokenOutput popen s).drop (pos + 1))
          (some token, s.withToken token)
      | none => (none, s) := by
  rw [← isSome_find, Option.not_isSome_iff_eq_none] at h
  rw [createAdminToken, if_neg (Bool.noConfusion ·), ← tokenOutput]
  dsimp only
  generalize find (bytes "created:") (tokenOutput popen s) = found at h ⊢
  subst h
  cases find (bytes ":") (tokenOutput popen s) with
  | none => rfl
  | some pos => rfl

theorem find_colon_eq_none {output : Bytes} :
    find (bytes ":") output = none ↔ (58 : UInt8) ∉ output := by
  rw [← Option.not_isSome_iff_eq_none, isSome_find]
  exact not_congr (List.singleton_infix_iff 58 output)

/-- The word stands where the text before it ends. -/
theorem find_created {before rest : Bytes} (h : (58 : UInt8) ∉ before) :
    find (bytes "created:") (before ++ (bytes "created:" ++ rest)) = some before.length := by
  refine find_region fun a b hab hb hprefix => hb ?_
  -- Up to the first colon the text is the word, and it is `b` with the word behind it.
  have hcolon : ∀ x : Bytes, (58 : UInt8) ∉ x → ∀ y,
      (x ++ (bytes "created:" ++ y)).takeWhile (· ≠ 58) = x ++ bytes "created" := by
    intro x hx y
    rw [List.takeWhile_append_of_pos]
    · rfl
    · intro c hc
      exact decide_eq_true fun heq => hx (heq ▸ hc)
  obtain ⟨after, hafter⟩ := hprefix
  have htexts := congrArg (List.takeWhile (· ≠ 58)) hafter
  rw [hcolon b (fun hc => h (hab ▸ List.mem_append_right _ hc)) rest] at htexts
  have hword := hcolon [] List.not_mem_nil after
  rw [List.nil_append, List.nil_append] at hword
  rw [hword] at htexts
  exact List.append_left_eq_self.1 htexts.symm

/-- `" \t\n\r"` -/
def isBlank (c : UInt8) : Bool := decide (c = 32 ∨ c = 9 ∨ c = 10 ∨ c = 13)

theorem isBlank_of_isSpace : ∀ c : UInt8, isSpace c = false → isBlank c = false :=
  forall_byte (by decide +kernel)

/-- What is cut off begins in the word. -/
theorem trim_reated {token : Bytes} (h : ∀ c ∈ token, isSpace c = false) :
    trim (bytes "reated: " ++ token ++ [newline]) ≠ token := by
  have htrim : trim (bytes "reated: " ++ token ++ [newline]) =
      (bytes "reated: " ++ token).rdropWhile isBlank := by
    show (bytes "reated: " ++ token ++ [newline]).rdropWhile isBlank = _
    rw [List.rdropWhile_concat_pos _ _ _ (by decide)]
  rw [htrim]
  rcases List.eq_nil_or_concat' token with rfl | ⟨front, c, rfl⟩
  · decide
  · -- A token keeps its end, so the blank before it is kept too.
    have hc : ¬ isBlank c = true := by
      rw [isBlank_of_isSpace c (h c (by simp))]
      exact Bool.false_ne_true
    rw [← List.append_assoc, List.rdropWhile_concat_neg _ _ _ hc]
    intro heq
    have hspace : (32 : UInt8) ∈ front ++ [c] := by
      rw [← heq]
      exact List.mem_append_left _ (List.mem_append_left _ (by decide))
    exact absurd (h 32 hspace) (by decide)

/-- An announced token is never returned. -/
theorem not_read_of_announces {token : Bytes} (h : Announces (tokenOutput popen s) token) :
    (s.createAdminToken popen).1 ≠ some token := by
  obtain ⟨before, hcolon, htoken, houtput⟩ := h
  have hshape : tokenOutput popen s =
      before ++ (bytes "created:" ++ (bytes " " ++ token ++ [newline])) := by
    rw [houtput]
    simp [bytes]
  have hfind : find (bytes "created:") (tokenOutput popen s) = some before.length := by
    rw [hshape, find_created hcolon]
  have hrest : (tokenOutput popen s).drop (before.length + 1) =
      bytes "reated: " ++ token ++ [newline] := by
    rw [houtput, List.drop_append, List.drop_eq_nil_of_le (Nat.le_succ _),
      Nat.add_sub_cancel_left]
    rfl
  rw [createAdminToken_of_created hfind, hrest]
  exact fun heq => trim_reated htoken (Option.some.inj heq)

end

/-- Tokens are read as they should be exactly from outputs that announce none and that have
either no colon or the word. -/
theorem tokenRead_iff (popen : Popen) (s : GiteaServer) :
    TokenRead popen s ↔
      (¬ ∃ token, Announces (tokenOutput popen s) token) ∧
        ((58 : UInt8) ∈ tokenOutput popen s → bytes "created:" <:+: tokenOutput popen s) := by
  constructor
  · intro hread
    constructor
    · rintro ⟨token, htoken⟩
      exact not_read_of_announces htoken (by rw [hread.announced token htoken])
    · intro hcolon
      by_contra hword
      have hsilent := hread.silent hword
      rw [createAdminToken_of_not_created hword] at hsilent
      cases hfind : find (bytes ":") (tokenOutput popen s) with
      | none => exact find_colon_eq_none.1 hfind hcolon
      | some pos =>
          rw [hfind] at hsilent
          cases hsilent
  · rintro ⟨hnone, hword⟩
    constructor
    · intro token htoken
      exact absurd ⟨token, htoken⟩ hnone
    · intro hnot
      have hfind := find_colon_eq_none.2 fun hcolon => hnot (hword hcolon)
      rw [createAdminToken_of_not_created hnot, hfind]

/-- A server without a token. -/
def fresh : GiteaServer := ⟨{ host := bytes "git.example.org" }, none, []⟩

/-- Every command prints the same. -/
def printing (output : String) : Popen := fun _ => some (bytes output)

def madeToken : Popen := printing "Access token was successfully created: 3fa9\n"

/-- Part of the word becomes part of the token, and what `ssh` says of a failure becomes one. -/
theorem madeToken_not_read :
    (fresh.createAdminToken madeToken).1 = some (bytes "reated: 3fa9") ∧
      ¬ TokenRead madeToken fresh ∧ ¬ TokenRead (printing "ssh: no route to host\n") fresh := by
  refine ⟨by decide +kernel, fun hread => ?_, fun hread => ?_⟩
  · have hannounces : Announces (tokenOutput madeToken fresh) (bytes "3fa9") :=
      ⟨bytes "Access token was successfully ", by decide +kernel, by decide +kernel,
        by decide +kernel⟩
    exact not_read_of_announces hannounces (by rw [hread.announced _ hannounces])
  · have hsilent := hread.silent (by rw [← isSome_find]; decide +kernel)
    exact absurd (congrArg Prod.fst hsilent) (by decide +kernel)

end Nazg.Git.GiteaServer

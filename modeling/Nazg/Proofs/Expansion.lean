import Nazg.Config.Store

/-!
# Which configuration values come out expanded

The documentation has every value of a configuration file pass through `expand_env_vars`. The
store does not: it hands a value out as it stands in the file. So the values are right where
expansion has nothing to do, and that is so in every environment only if no value refers to
a variable.

Only the path of the database goes through `expand_env_vars`, which expands what it is
given as documented unless a fallback is empty or has a `$` in it.
-/

namespace Nazg.Config

open Lib Variables

namespace Store

/-! ## What is stored -/

theorem foldl_step_data (lines : List Bytes) (l : Loading) (sec key : Bytes) :
    (lines.foldl Loading.step l).data sec key =
      (((entriesFrom l.currentSection lines).findRev? fun e => e.sec = sec ∧ e.key = key).map
        Entry.value).or (l.data sec key) := by
  induction lines generalizing l with
  | nil => simp [entriesFrom]
  | cons raw lines ih =>
      rw [List.foldl_cons, ih, Loading.step, entriesFrom]
      cases readLine raw with
      | nothing => rfl
      | header name => rfl
      | entry k v =>
          by_cases hsec : l.currentSection = []
          · simp only [if_pos hsec]
          · simp only [if_neg hsec, List.findRev?]
            cases (entriesFrom l.currentSection lines).findRev? fun e =>
              e.sec = sec ∧ e.key = key with
            | some e => rfl
            | none =>
                simp only [Option.map_none, Option.none_or, Data.set, decide_eq_true_eq]
                by_cases hk : l.currentSection = sec ∧ k = key
                · rw [if_pos ⟨hk.1.symm, hk.2.symm⟩, if_pos hk]
                  rfl
                · rw [if_neg fun h => hk ⟨h.1.symm, h.2.symm⟩, if_neg hk]
                  rfl

/-- A store holds for each key the value last assigned to it. -/
theorem load_eq_valueOf (text sec key : Bytes) :
    load (some text) sec key = valueOf text sec key := by
  show ((getFields 10 text).foldl Loading.step _).data sec key = _
  rw [foldl_step_data, Option.or_none]
  rfl

theorem getString_of_valueOf {text sec key v : Bytes} (h : valueOf text sec key = some v)
    (default : Bytes) : getString (load (some text)) sec key default = v := by
  rw [getString, load_eq_valueOf, h, Option.getD_some]

/-! ## Expansion of the values -/

/-- Each key of the file gives its value with the references in it replaced. -/
def Expanded (env : Bytes → Option Bytes) (text : Bytes) : Prop :=
  ∀ sec key default v, valueOf text sec key = some v →
    getString (load (some text)) sec key default = expand env v

/-- In one environment the values are right if none is changed by its expansion there, and in
all of them if no value has a reference. -/
theorem expanded_iff (text : Bytes) :
    (∀ env, Expanded env text ↔
      ∀ sec key v, valueOf text sec key = some v → expand env v = v) ∧
    ((∀ env, Expanded env text) ↔
      ∀ sec key v, valueOf text sec key = some v → hasReference v = false) := by
  have hone : ∀ env, Expanded env text ↔
      ∀ sec key v, valueOf text sec key = some v → expand env v = v := by
    intro env
    constructor
    · intro h sec key v hv
      rw [← h sec key [] v hv, getString_of_valueOf hv]
    · intro h sec key default v hv
      rw [getString_of_valueOf hv, h sec key v hv]
  refine ⟨hone, ?_⟩
  constructor
  · intro h sec key v hv
    exact forall_expand_eq_self_iff.1 fun env => (hone env).1 (h env) sec key v hv
  · intro h env
    exact (hone env).2 fun sec key v hv => expand_eq_self (h sec key v hv)

/-- `$HOME` comes out as it was written. -/
theorem home_not_expanded :
    ¬ Expanded (fun name => if name = bytes "HOME" then some (bytes "/root") else none)
      (bytes "[a]\nb = \"$HOME\"\n") := by
  intro h
  have hv : valueOf (bytes "[a]\nb = \"$HOME\"\n") (bytes "a") (bytes "b") =
      some (bytes "$HOME") := by
    decide +kernel
  have hexp := h _ _ [] _ hv
  rw [getString_of_valueOf hv] at hexp
  have href : readReference (bytes "$HOME") = some ⟨bytes "HOME", none, []⟩ := by rfl
  rw [expand_of_reference href, expand_nil] at hexp
  revert hexp
  decide

end Store

/-! ## `expand_env_vars` -/

theorem untilClose_eq_none {nested : Nat} {afterDollar : Bool} {s : Bytes}
    (h : closeBrace ∉ s) : untilClose nested afterDollar s = none := by
  induction s generalizing nested afterDollar with
  | nil => rw [untilClose]
  | cons c s ih =>
      rw [List.mem_cons, not_or] at h
      rw [untilClose.eq_def]
      simp only [if_neg (Ne.symm h.1), ih h.2, Option.map_none, ite_self]

theorem untilClose_plain {f s : Bytes} (hbrace : closeBrace ∉ f) (hdollar : dollar ∉ f) :
    untilClose 0 false (f ++ closeBrace :: s) = some (f, s) := by
  induction f with
  | nil => rfl
  | cons c f ih =>
      rw [List.mem_cons, not_or] at hbrace hdollar
      have hd : decide (c = dollar) = false := decide_eq_false (Ne.symm hdollar.1)
      rw [List.cons_append, untilClose.eq_def]
      simp only [if_neg (Ne.symm hbrace.1), Bool.and_false, Bool.false_eq_true, if_false, hd,
        ih hbrace.2 hdollar.2, Option.map_some]

/-- No fallback is empty or has a `$` before its first brace. -/
def PlainFallbacks (s : Bytes) : Prop :=
  ∀ f rest, 58 :: 45 :: (f ++ closeBrace :: rest) <:+ s → closeBrace ∉ f →
    f ≠ [] ∧ dollar ∉ f

theorem PlainFallbacks.suffix {s t : Bytes} (h : PlainFallbacks s) (ht : t <:+ s) :
    PlainFallbacks t :=
  fun f rest hf => h f rest (hf.trans ht)

theorem takeWhile_append_dropWhile_cons {p : UInt8 → Bool} {s rest : Bytes} {c : UInt8}
    (h : s.dropWhile p = c :: rest) : s = s.takeWhile p ++ c :: rest ∧ p c = false := by
  refine ⟨?_, ?_⟩
  · rw [← h, List.takeWhile_append_dropWhile]
  · have hne : s.dropWhile p ≠ [] := by
      rw [h]
      exact List.cons_ne_nil _ _
    have hhead := List.head_dropWhile_not p hne
    simpa only [h, List.head_cons] using hhead

/-- The fallback of the expression is the one documented. -/
theorem matchBraced_eq {s : Bytes} (h : PlainFallbacks s) : matchBraced s = readBraced s := by
  rw [matchBraced, readBraced]
  simp only
  split
  · rfl
  · cases hdrop : s.dropWhile isBracedNameChar with
    | nil => rfl
    | cons c rest =>
        obtain ⟨hs, hc⟩ := takeWhile_append_dropWhile_cons hdrop
        by_cases hbrace : c = closeBrace
        · simp only [if_pos hbrace]
        · have hcolon : c = 58 := by
            simpa [isBracedNameChar, hbrace] using hc
          simp only [if_neg hbrace]
          cases rest with
          | nil => rfl
          | cons d rest =>
              by_cases hd : d = 45
              · simp only [if_pos hd]
                have hsuffix : 58 :: 45 :: rest <:+ s := ⟨_, by rw [hs, hcolon, hd]⟩
                cases hrest : rest.dropWhile (· ≠ closeBrace) with
                | nil =>
                    have hnone : closeBrace ∉ rest := by
                      rw [List.dropWhile_eq_nil_iff] at hrest
                      intro hmem
                      simpa using hrest _ hmem
                    rw [untilClose_eq_none hnone, Option.map_none]
                | cons e rest' =>
                    obtain ⟨hsplit, he⟩ := takeWhile_append_dropWhile_cons hrest
                    have he' : e = closeBrace := by simpa using he
                    have hnot : closeBrace ∉ rest.takeWhile (· ≠ closeBrace) := by
                      intro hmem
                      simpa using List.mem_takeWhile_imp hmem
                    rw [he'] at hsplit
                    have hplain := h (rest.takeWhile (· ≠ closeBrace)) rest'
                      (by rwa [← hsplit]) hnot
                    simp only [if_neg hplain.1]
                    conv_rhs => rw [hsplit]
                    rw [untilClose_plain hnot hplain.2, Option.map_some]
              · simp only [if_neg hd]

theorem matchEnv_eq {s : Bytes} (h : PlainFallbacks s) : matchEnv s = readReference s := by
  cases s with
  | nil => rfl
  | cons c s =>
      cases s with
      | nil => rfl
      | cons d s =>
          rw [matchEnv, readReference, matchBraced_eq (h.suffix ⟨[c, d], rfl⟩)]

theorem hasReference_plain {f : Bytes} (h : dollar ∉ f) : hasReference f = false := by
  induction f with
  | nil => rfl
  | cons c f ih =>
      rw [List.mem_cons, not_or] at h
      have hnone : readReference (c :: f) = none := by
        cases f with
        | nil => rfl
        | cons d f => rw [readReference, if_neg (Ne.symm h.1)]
      rw [hasReference, hnone, ih h.2]
      rfl

theorem matchBraced_cases {s : Bytes} {r : Reference} (h : matchBraced s = some r) :
    r.fallback = none ∧ r.rest <:+ s ∨
      ∃ f, r.fallback = some f ∧ closeBrace ∉ f ∧
        58 :: 45 :: (f ++ closeBrace :: r.rest) <:+ s := by
  rw [matchBraced] at h
  simp only at h
  split at h
  · cases h
  · split at h
    · cases h
    · rename_i c rest hdrop
      obtain ⟨hs, hc⟩ := takeWhile_append_dropWhile_cons hdrop
      split at h
      · obtain rfl := Option.some.inj h
        exact Or.inl ⟨rfl, _, by rw [List.append_cons] at hs; exact hs.symm⟩
      · rename_i hbrace
        have hcolon : c = 58 := by
          simpa [isBracedNameChar, hbrace] using hc
        split at h
        · cases h
        · rename_i d rest hd
          split at h
          · rename_i hminus
            split at h
            · cases h
            · rename_i e rest' hrest
              obtain ⟨hsplit, he⟩ := takeWhile_append_dropWhile_cons hrest
              have he' : e = closeBrace := by simpa using he
              split at h
              · cases h
              · obtain rfl := Option.some.inj h
                refine Or.inr ⟨_, rfl, ?_, s.takeWhile isBracedNameChar, ?_⟩
                · intro hmem
                  simpa using List.mem_takeWhile_imp hmem
                · rw [he'] at hsplit
                  rw [← hsplit, ← hcolon, ← hminus]
                  exact hs.symm
          · cases h

/-- What a match leaves of the text, and what its fallback is like. -/
theorem matchEnv_spec {c : UInt8} {s : Bytes} {r : Reference}
    (hr : matchEnv (c :: s) = some r) :
    r.rest <:+ s ∧ (PlainFallbacks (c :: s) → dollar ∉ r.fallback.getD []) := by
  rw [matchEnv.eq_def] at hr
  split at hr
  · rename_i c' d s' hcons
    obtain ⟨rfl, rfl⟩ := List.cons.inj hcons
    split at hr
    · split at hr
      · obtain ⟨hf, hrest⟩ | ⟨f, hf, hbrace, hsuffix⟩ := matchBraced_cases hr
        · refine ⟨hrest.trans (List.suffix_cons d s'), fun _ => ?_⟩
          rw [hf]
          exact List.not_mem_nil
        · have hall : 58 :: 45 :: (f ++ closeBrace :: r.rest) <:+ d :: s' :=
            hsuffix.trans (List.suffix_cons d s')
          refine ⟨List.IsSuffix.trans ⟨58 :: 45 :: (f ++ [closeBrace]), by simp⟩ hall, ?_⟩
          intro h
          rw [hf]
          exact (h f r.rest (hall.trans (List.suffix_cons _ _)) hbrace).2
      · rw [readNamed] at hr
        split at hr
        · obtain rfl := Option.some.inj hr
          exact ⟨(List.dropWhile_suffix _).trans (List.suffix_cons d s'), fun _ => List.not_mem_nil⟩
        · cases hr
    · cases hr
  · cases hr

theorem name_subset {c : UInt8} {s : Bytes} {r : Reference} (hr : matchEnv (c :: s) = some r) :
    r.name ⊆ s := by
  rw [matchEnv.eq_def] at hr
  split at hr
  · rename_i c' d s' hcons
    obtain ⟨rfl, rfl⟩ := List.cons.inj hcons
    split at hr
    · split at hr
      · refine List.Subset.trans ?_ (List.subset_cons_self d s')
        have hname : r.name = s'.takeWhile isBracedNameChar := by
          rw [matchBraced] at hr
          simp only at hr
          repeat' split at hr
          all_goals first | cases hr; done | (obtain rfl := Option.some.inj hr; rfl)
        rw [hname]
        exact (List.takeWhile_sublist _).subset
      · rw [readNamed] at hr
        split at hr
        · obtain rfl := Option.some.inj hr
          exact List.cons_subset_cons d (List.takeWhile_sublist _).subset
        · cases hr
    · cases hr
  · cases hr

theorem expandEnvVarsFrom_skip (env : Bytes → Option Bytes) (n : Nat) (s : Bytes) :
    expandEnvVarsFrom env n s = expandEnvVars env (s.drop n) := by
  induction s generalizing n with
  | nil =>
      rw [List.drop_nil, expandEnvVars, expandEnvVarsFrom, expandEnvVarsFrom]
  | cons c s ih =>
      cases n with
      | zero => rfl
      | succ n => rw [expandEnvVarsFrom, ih, List.drop_succ_cons]

theorem expandEnvVars_cons_of_none {env : Bytes → Option Bytes} {c : UInt8} {s : Bytes}
    (h : matchEnv (c :: s) = none) :
    expandEnvVars env (c :: s) = c :: expandEnvVars env s := by
  rw [expandEnvVars, expandEnvVarsFrom, h]
  rfl

theorem expandEnvVars_of_match {env : Bytes → Option Bytes} {c : UInt8} {s : Bytes}
    {r : Reference} (h : matchEnv (c :: s) = some r) :
    expandEnvVars env (c :: s) = envValue env r ++ expandEnvVars env r.rest := by
  have hrest : s.drop (s.length - r.rest.length) = r.rest :=
    (List.suffix_iff_eq_drop.1 (matchEnv_spec h).1).symm
  rw [expandEnvVars, expandEnvVarsFrom, h]
  simp only [expandEnvVarsFrom_skip, hrest]

/-- `expand_env_vars` does what is documented, fallbacks with references of their own apart. -/
theorem expandEnvVars_eq_expand {env : Bytes → Option Bytes} {s : Bytes}
    (h : PlainFallbacks s) (hnul : (0 : UInt8) ∉ s) :
    expandEnvVars env s = expand env s := by
  induction hn : s.length using Nat.strong_induction_on generalizing s with
  | _ n ih =>
      subst hn
      cases s with
      | nil => rw [expandEnvVars, expandEnvVarsFrom, expand_nil]
      | cons c s =>
          have hmatch := matchEnv_eq h
          cases hr : matchEnv (c :: s) with
          | none =>
              rw [hr] at hmatch
              rw [expandEnvVars_cons_of_none hr, expand_cons_of_none hmatch.symm,
                ih s.length (by simp) (h.suffix (List.suffix_cons c s))
                  (fun hmem => hnul (List.mem_cons_of_mem c hmem)) rfl]
          | some r =>
              obtain ⟨hsuffix, hplain⟩ := matchEnv_spec hr
              have hrest : r.rest <:+ c :: s := hsuffix.trans (List.suffix_cons c s)
              have hlt : r.rest.length < (c :: s).length := Nat.lt_succ_of_le hsuffix.length_le
              have hname : cstr r.name = r.name := cstr_eq_self.2 fun hmem =>
                hnul (List.mem_cons_of_mem c (name_subset hr hmem))
              rw [hr] at hmatch
              rw [expandEnvVars_of_match hr, expand_of_reference hmatch.symm, envValue, hname,
                expand_eq_self (hasReference_plain (hplain h)),
                ih _ hlt (h.suffix hrest) (fun hmem => hnul (hrest.subset hmem)) rfl]

/-- The path of the database does come out as documented. -/
theorem dbPath_eq_expand {env : Bytes → Option Bytes} {text path default : Bytes}
    (hpath : Store.valueOf text (bytes "nexus") (bytes "db_path") = some path)
    (h : PlainFallbacks path) (hnul : (0 : UInt8) ∉ path) :
    dbPath env (Store.load (some text)) default = expand env path := by
  have hhas : Store.has (Store.load (some text)) (bytes "nexus") (bytes "db_path") = true := by
    rw [Store.has, Store.load_eq_valueOf, hpath, Option.isSome_some]
  rw [dbPath, if_pos hhas, Store.getString_of_valueOf hpath, expandEnvVars_eq_expand h hnul]

/-- A fallback of the documentation's own goes out with its reference. -/
example :
    let env := fun name => if name = bytes "HOME" then some (bytes "/root") else none
    expandEnvVars env (bytes "${XDG_STATE_HOME:-$HOME/.local/state}/nazg.db") =
      bytes "$HOME/.local/state/nazg.db" := by
  decide +kernel

end Nazg.Config

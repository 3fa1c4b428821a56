import Nazg.Proofs.ComposeParse

/-!
# The services of a plain text

From the entries of a service to the services of a file: the parser comes out of
`parse_service` at the next service, out of the services at the next section, and every
other section leaves the services as they were. So the map it returns holds exactly the
services of the text.
-/

namespace Nazg.Docker

open Lib

/-! ## One service -/

theorem entry_head {m : Nat} {body : EntryBody} (hw : body.Written m) :
    ∃ key after ls, body.lines m = keyLine m key after :: ls ∧ KeyText key := by
  cases body with
  | dependsOn d => cases d <;> exact ⟨_, _, _, rfl, keyText_dependsOn⟩
  | networkMode gap mode trail => exact ⟨_, _, _, rfl, keyText_networkMode⟩
  | other key after nested => exact ⟨_, _, _, rfl, hw.1⟩

theorem stops_entries {n m : Nat} (hnm : n ≤ m) {entries : List Entry}
    (hw : ∀ e ∈ entries, e.body.Written m ∧ ∀ x ∈ e.after, x.Written) {rest : List Line}
    (hstops : Stops n rest) : Stops m (entries.flatMap (·.lines m) ++ rest) := by
  cases entries with
  | nil => exact hstops.mono hnm
  | cons e entries =>
      obtain ⟨key, after, ls, hlines, hkey⟩ := entry_head (hw e List.mem_cons_self).1
      rw [List.flatMap_cons, Entry.lines, hlines]
      exact stops_keyLine hkey after _ (Nat.le_refl m)

theorem run_entries {n m : Nat} (hnm : n < m) {entries : List Entry}
    (hw : ∀ e ∈ entries, e.body.Written m ∧ ∀ x ∈ e.after, x.Written)
    (hp : ∀ e ∈ entries, e.body.Plain m) {rest : List Line} (hstops : Stops n rest)
    (s : ComposeService) :
    ∃ s', run (serviceTurn n) s (entries.flatMap (·.lines m) ++ rest) =
        run (serviceTurn n) s' rest ∧
      s'.dependsOn = s.dependsOn ++ entries.flatMap (·.body.listed) ∧
      s'.networkMode = ((entries.filterMap (·.body.mode)).getLast?).getD s.networkMode := by
  induction entries generalizing s with
  | nil => exact ⟨s, rfl, (List.append_nil _).symm, rfl⟩
  | cons e entries ih =>
      have hw' : ∀ x ∈ entries, x.body.Written m ∧ ∀ y ∈ x.after, y.Written :=
        fun x hx => hw x (List.mem_cons_of_mem _ hx)
      obtain ⟨hbody, hafter⟩ := hw e List.mem_cons_self
      obtain ⟨s₁, hrun₁, hdeps₁, hmode₁⟩ :=
        run_entry hnm hbody hafter (hp e List.mem_cons_self)
          (stops_entries (Nat.le_of_lt hnm) hw' hstops) s
      obtain ⟨s₂, hrun₂, hdeps₂, hmode₂⟩ :=
        ih hw' (fun x hx => hp x (List.mem_cons_of_mem _ hx)) s₁
      refine ⟨s₂, ?_, ?_, ?_⟩
      · rw [List.flatMap_cons, List.append_assoc, hrun₁, hrun₂]
      · rw [hdeps₂, hdeps₁, List.flatMap_cons, List.append_assoc]
      · rw [hmode₂, hmode₁]
        cases hmode : e.body.mode with
        | none => simp only [List.filterMap_cons, hmode, Option.getD_none]
        | some mode =>
            simp only [List.filterMap_cons, hmode, Option.getD_some, List.getLast?_cons]

/-- `parse_service` reads one service and stops at what follows it. -/
theorem parseService_text {n : Nat} {t : ServiceText} (hw : t.Written n) (hp : t.Plain)
    {rest : List Line} (hstops : Stops n rest) (s : ComposeService) (hs : s.read = ([], [])) :
    ∃ s', parseService n s
        (t.between.map (·.line) ++ (t.entries.flatMap (·.lines t.inner) ++ rest)) = (s', rest) ∧
      s'.read = (t.listed, t.mode) := by
  obtain ⟨-, -, -, hbetween, hinner, hentries⟩ := hw
  obtain ⟨s', hrun, hdeps, hmode⟩ := run_entries hinner hentries hp.2 hstops s
  refine ⟨s', ?_, ?_⟩
  · rw [parseService, run_of_skip (serviceTurn_forward n) (serviceTurn_noise hbetween), hrun]
    refine run_of_stop (serviceTurn_forward n) fun l ls hl => ?_
    obtain ⟨hnoise, hle⟩ := hstops l ls hl
    rw [serviceTurn, hnoise, if_neg Bool.false_ne_true, if_pos hle]
  · rw [ComposeService.read, Prod.mk.injEq] at hs
    rw [ComposeService.read, hdeps, hmode, hs.1, hs.2, List.nil_append]
    rfl

/-! ## The services -/

theorem lookup_append_single {name key : Bytes} {v : List Bytes × Bytes}
    {done : List (Bytes × List Bytes × Bytes)} (h : key ∉ done.map Prod.fst) :
    OrdMap.lookup name (done ++ [(key, v)]) =
      if name = key then some v else OrdMap.lookup name done := by
  induction done with
  | nil =>
      rw [List.nil_append, OrdMap.lookup, OrdMap.lookup]
      by_cases hname : name = key
      · rw [if_pos hname, if_pos hname]
      · rw [if_neg hname, if_neg hname]
        rfl
  | cons e done ih =>
      rw [List.map_cons, List.mem_cons, not_or] at h
      rw [List.cons_append, OrdMap.lookup, OrdMap.lookup, ih h.2]
      by_cases hname : name = e.1
      · rw [if_pos hname, if_pos hname, if_neg fun hk => h.1 (hk.symm.trans hname)]
      · rw [if_neg hname, if_neg hname]

theorem Holds.insert {compose : ComposeFile} {done : List (Bytes × List Bytes × Bytes)}
    (h : Holds compose done) {key : Bytes} (hkey : key ∉ done.map Prod.fst) {s : ComposeService}
    {v : List Bytes × Bytes} (hs : s.read = v) :
    Holds { compose with services := compose.services.insert key s } (done ++ [(key, v)]) := by
  intro name
  rw [lookup_append_single hkey, OrdMap.find?_insert]
  split
  · rw [Option.map_some, hs]
  · exact h name

theorem written_of_plain {s : Scalar} (h : s.quoting = .plain) : s.written = s.value := by
  rw [Scalar.written, h]

theorem stops_texts {n : Nat} {texts : List ServiceText} (hw : ∀ t ∈ texts, t.Written n) {r : Nat}
    (hrn : r ≤ n) {rest : List Line} (hstops : Stops r rest) :
    Stops n (texts.flatMap (·.lines n) ++ rest) := by
  cases texts with
  | nil => exact hstops.mono hrn
  | cons t texts =>
      rw [List.flatMap_cons, ServiceText.lines]
      exact stops_keyLine (hw t List.mem_cons_self).2.1 _ _ (Nat.le_refl n)

theorem texts_cons (n : Nat) (t : ServiceText) (texts : List ServiceText) (rest : List Line) :
    (t :: texts).flatMap (·.lines n) ++ rest = keyLine n t.name.written t.trail.text ::
      (t.between.map (·.line) ++ (t.entries.flatMap (·.lines t.inner) ++
        (texts.flatMap (·.lines n) ++ rest))) := by
  rw [List.flatMap_cons, ServiceText.lines, List.cons_append, List.cons_append,
    List.append_assoc, List.append_assoc]

/-- The loop below `services:` takes in every service and stops behind the last one. -/
theorem run_services {r n : Nat} (hrn : r < n) {texts : List ServiceText}
    (hw : ∀ t ∈ texts, t.Written n) (hp : ∀ t ∈ texts, t.Plain) {rest : List Line}
    (hstops : Stops r rest) {compose : ComposeFile} {done : List (Bytes × List Bytes × Bytes)}
    (hdone : Holds compose done) (hnodup : ((done ++ texts.map (·.read)).map Prod.fst).Nodup) :
    ∃ compose', run (servicesTurn r) compose (texts.flatMap (·.lines n) ++ rest) =
        (compose', rest) ∧ Holds compose' (done ++ texts.map (·.read)) := by
  induction texts generalizing compose done with
  | nil =>
      refine ⟨compose, run_of_stop (servicesTurn_forward r) fun l ls hl => ?_, ?_⟩
      · obtain ⟨hnoise, hle⟩ := hstops l ls hl
        rw [servicesTurn, not_flush_of_not_noise hnoise, if_neg Bool.false_ne_true, if_pos hle]
      · rw [List.map_nil, List.append_nil]
        exact hdone
  | cons t texts ih =>
      have hw' : ∀ x ∈ texts, x.Written n := fun x hx => hw x (List.mem_cons_of_mem _ hx)
      have htext := hw t List.mem_cons_self
      have hplain := hp t List.mem_cons_self
      have hkey := htext.2.1
      have hvalue : t.name.written = t.name.value := written_of_plain hplain.1
      obtain ⟨s', hparse, hread⟩ := parseService_text htext hplain
        (stops_texts hw' (Nat.le_of_lt hrn) hstops)
        { ComposeService.init with name := t.name.written } rfl
      have hturn : servicesTurn r compose (keyLine n t.name.written t.trail.text)
          (t.between.map (·.line) ++ (t.entries.flatMap (·.lines t.inner) ++
            (texts.flatMap (·.lines n) ++ rest))) =
          some ({ compose with services := compose.services.insert t.name.written s' },
            texts.flatMap (·.lines n) ++ rest) := by
        rw [servicesTurn, isFlushNoise_keyLine hkey, if_neg Bool.false_ne_true,
          getIndentLevel_keyLine hkey, if_neg (by omega), extractKey_keyLine hkey]
        simp only [hparse]
      have hfresh : t.name.written ∉ done.map Prod.fst := by
        rw [List.map_append, List.nodup_append, List.map_cons, List.map_cons] at hnodup
        intro hmem
        exact hnodup.2.2 _ hmem _ List.mem_cons_self hvalue
      have hlist : done ++ (t :: texts).map (·.read) =
          done ++ [(t.name.written, t.listed, t.mode)] ++ texts.map (·.read) := by
        rw [List.append_assoc, hvalue]
        rfl
      rw [hlist] at hnodup ⊢
      obtain ⟨compose', hrun, hholds⟩ := ih hw' (fun x hx => hp x (List.mem_cons_of_mem _ hx))
        (hdone.insert hfresh hread) hnodup
      refine ⟨compose', ?_, hholds⟩
      rw [texts_cons, run_of_some (servicesTurn_forward r) hturn]
      exact hrun

end Nazg.Docker

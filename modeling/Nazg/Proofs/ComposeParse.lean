import Nazg.Proofs.ComposeLines

/-!
# What the parser reads off a plain text

The loops are followed from the inside out. Below a key, everything up to the next line
that is no noise and not deeper is taken, perhaps but for some noise, which the loop
outside steps over. So each entry of a service leaves the cursor, in effect, at the next
entry, each service at the next service, and each section at the next section; and only
`depends_on` and `network_mode` change what is read of a service.
-/

namespace Nazg.Docker

open Lib

/-! ## Where the loops stop -/

/-- What follows begins with a line that ends every loop at `indent` or deeper. -/
def Stops (indent : Nat) (rest : List Line) : Prop :=
  ∀ l ls, rest = l :: ls → isNoise l = false ∧ getIndentLevel l ≤ indent

theorem Stops.mono {m n : Nat} (hmn : m ≤ n) {rest : List Line} (h : Stops m rest) :
    Stops n rest :=
  fun l ls hl => ⟨(h l ls hl).1, (h l ls hl).2.trans hmn⟩

theorem stops_nil (n : Nat) : Stops n [] := fun _ _ h => nomatch h

theorem stops_keyLine {m n : Nat} {key : Bytes} (hkey : KeyText key) (after : Bytes)
    (ls : List Line) (hmn : m ≤ n) : Stops n (keyLine m key after :: ls) := by
  rintro _ _ h
  cases h
  exact ⟨isNoise_keyLine hkey m after, by rw [getIndentLevel_keyLine hkey]; exact hmn⟩

theorem not_flush_of_not_noise {l : Line} (h : isNoise l = false) : isFlushNoise l = false := by
  rw [Bool.eq_false_iff] at h ⊢
  exact fun hf => h (isNoise_of_isFlushNoise hf)

section Block

variable {σ : Type} {f : σ → Line → σ} {m : Nat}

theorem blockTurn_of_stops {l : Line} {ls : List Line} (h : Stops m (l :: ls)) (s : σ) :
    blockTurn m f s l ls = none := by
  obtain ⟨hnoise, hle⟩ := h l ls rfl
  rw [blockTurn, not_flush_of_not_noise hnoise, if_neg Bool.false_ne_true, if_pos hle]

theorem not_belowApart_of_blockTurn {s : σ} {l : Line} {ls : List Line}
    (h : blockTurn m f s l ls = none) : ¬ BelowApart m l := by
  rw [blockTurn] at h
  split_ifs at h with hflush hle
  rintro (hf | hlt)
  · exact hflush hf
  · omega

theorem parseBlock_barrier {rest ls : List Line} (hstops : Stops m rest) (hrest : rest <:+ ls)
    (s : σ) : rest <:+ (parseBlock m f s ls).2 := by
  refine run_barrier (blockTurn_forward m f) ?_ ?_ hrest
  · rintro s l ls rfl
    exact blockTurn_of_stops hstops s
  · intro s l ls s' ls' hsuf hturn
    rw [blockTurn] at hturn
    split_ifs at hturn
    · cases hturn
      exact hsuf
    · cases hturn
      exact hsuf

/-- What a loop that looks at a line does to its state. -/
def blockStep (f : σ → Line → σ) (s : σ) (l : Line) : σ := if isFlushNoise l then s else f s l

/-- Lines below a key are taken one by one. -/
theorem parseBlock_below {nested : List Line} (hnested : ∀ l ∈ nested, BelowApart m l) (s : σ)
    (rest : List Line) :
    parseBlock m f s (nested ++ rest) = parseBlock m f (nested.foldl (blockStep f) s) rest := by
  refine run_append_of_forall (blockTurn_forward m f) (fun l hl s ls => ?_) s rest
  rw [blockTurn, blockStep]
  split_ifs with hflush hle
  · rfl
  · rcases hnested l hl with h | h
    · exact absurd h hflush
    · omega
  · rfl

end Block

theorem serviceNetworksTurn_of_stops {m : Nat} {l : Line} {ls : List Line} (h : Stops m (l :: ls))
    (s : ComposeService) : serviceNetworksTurn m s l ls = none := by
  obtain ⟨hnoise, hle⟩ := h l ls rfl
  rw [serviceNetworksTurn, not_flush_of_not_noise hnoise, if_neg Bool.false_ne_true, if_pos hle]

theorem not_belowApart_of_serviceNetworksTurn {m : Nat} {s : ComposeService} {l : Line}
    {ls : List Line} (h : serviceNetworksTurn m s l ls = none) : ¬ BelowApart m l := by
  rw [serviceNetworksTurn] at h
  split_ifs at h with hflush hle
  rintro (hf | hlt)
  · exact hflush hf
  · omega

theorem parseServiceNetworks_barrier {m : Nat} {rest ls : List Line} (hstops : Stops m rest)
    (hrest : rest <:+ ls) (s : ComposeService) : rest <:+ (parseServiceNetworks m s ls).2 := by
  refine run_barrier (serviceNetworksTurn_forward m) ?_ ?_ hrest
  · rintro s l ls rfl
    exact serviceNetworksTurn_of_stops hstops s
  · intro s l ls s' ls' hsuf hturn
    rw [serviceNetworksTurn] at hturn
    split_ifs at hturn with hflush hle
    · cases hturn
      exact hsuf
    · cases hturn
      exact hsuf
    · obtain ⟨-, rfl⟩ := Prod.mk.inj (Option.some.inj hturn)
      exact parseBlock_barrier (hstops.mono (by omega)) hsuf _

/-! ## What is read of a service -/

theorem parseBlock_read {f : ComposeService → Line → ComposeService}
    (hf : ∀ s l, (f s l).read = s.read) (m : Nat) (s : ComposeService) (ls : List Line) :
    (parseBlock m f s ls).1.read = s.read := by
  refine run_invariant (blockTurn_forward m f) (p := fun s' => s'.read = s.read) ?_ rfl
  intro s₁ l ls s' ls' h hturn
  rw [blockTurn] at hturn
  split_ifs at hturn
  · cases hturn
    exact h
  · cases hturn
    exact (hf s₁ l).trans h

theorem addVolume_read (s : ComposeService) (l : Line) : (addVolume s l).read = s.read := rfl

theorem addEnvironment_read (s : ComposeService) (l : Line) :
    (addEnvironment s l).read = s.read := by
  rw [addEnvironment]
  dsimp only
  split_ifs <;> rfl

theorem addNetworkConfig_read (network : Bytes) (s : ComposeService) (l : Line) :
    (addNetworkConfig network s l).read = s.read := by
  rw [addNetworkConfig]
  split_ifs <;> rfl

theorem parseServiceNetworks_read (m : Nat) (s : ComposeService) (ls : List Line) :
    (parseServiceNetworks m s ls).1.read = s.read := by
  refine run_invariant (serviceNetworksTurn_forward m) (p := fun s' => s'.read = s.read) ?_ rfl
  intro s₁ l ls s' ls' h hturn
  rw [serviceNetworksTurn] at hturn
  split_ifs at hturn
  · cases hturn
    exact h
  · cases hturn
    exact h
  · obtain ⟨rfl, -⟩ := Prod.mk.inj (Option.some.inj hturn)
    exact (parseBlock_read (addNetworkConfig_read _) _ _ _).trans h

/-! ## One entry -/

/-- Any other key than the two leaves what is read as it was, and the cursor at the next
entry but for noise. -/
theorem parseServiceKey_other {m : Nat} {key : Bytes} (value : Bytes)
    (hdep : key ≠ bytes "depends_on") (hmode : key ≠ bytes "network_mode")
    {nested rest : List Line} (after : List Line)
    (hscalar : key ∈ scalarKeys → nested = []) (hnested : ∀ l ∈ nested, BelowApart m l)
    (hstops : Stops m rest) (s : ComposeService) :
    (parseServiceKey m key value s (nested ++ (after ++ rest))).1.read = s.read ∧
      ∃ left, left <:+ after ∧
        (parseServiceKey m key value s (nested ++ (after ++ rest))).2 = left ++ rest := by
  have hsuf : rest <:+ nested ++ (after ++ rest) := ⟨nested ++ after, List.append_assoc _ _ _⟩
  have hblock : ∀ f : ComposeService → Line → ComposeService, ∃ left, left <:+ after ∧
      (parseBlock m f s (nested ++ (after ++ rest))).2 = left ++ rest := fun f =>
    run_leftover (blockTurn_forward m f) (fun _ _ _ => not_belowApart_of_blockTurn) hnested
      (parseBlock_barrier hstops hsuf s)
  have hline : key ∈ scalarKeys → ∃ left, left <:+ after ∧
      nested ++ (after ++ rest) = left ++ rest := fun h =>
    ⟨after, List.suffix_rfl, by rw [hscalar h, List.nil_append]⟩
  rw [parseServiceKey]
  split_ifs with hkey hkey hkey hkey
  · exact ⟨rfl, hline (by rw [hkey]; decide)⟩
  · exact ⟨rfl, hline (by rw [hkey]; decide)⟩
  · exact ⟨rfl, hline (by rw [hkey]; decide)⟩
  · exact ⟨rfl, hline (by rw [hkey]; decide)⟩
  · exact ⟨parseServiceNetworks_read m s _, run_leftover (serviceNetworksTurn_forward m)
      (fun _ _ _ => not_belowApart_of_serviceNetworksTurn) hnested
      (parseServiceNetworks_barrier hstops hsuf s)⟩
  · exact ⟨parseBlock_read addVolume_read m s _, hblock _⟩
  · exact ⟨parseBlock_read addEnvironment_read m s _, hblock _⟩
  · exact ⟨parseBlock_read (fun _ _ => rfl) m s _, hblock _⟩

/-- Noise adds no dependency. -/
theorem addDependsOn_of_not_item {l : Line} (h : isListItem l = false) (s : ComposeService) :
    addDependsOn s l = s := by
  rw [addDependsOn, pushListItem, h]
  rfl

theorem blockStep_of_not_item {l : Line} (h : isListItem l = false) (s : ComposeService) :
    blockStep addDependsOn s l = s := by
  rw [blockStep]
  split_ifs
  · rfl
  · exact addDependsOn_of_not_item h s

theorem foldl_of_not_item {ls : List Line} (h : ∀ l ∈ ls, isListItem l = false)
    (s : ComposeService) : ls.foldl (blockStep addDependsOn) s = s := by
  induction ls with
  | nil => rfl
  | cons l ls ih =>
      rw [List.foldl_cons, blockStep_of_not_item (h l List.mem_cons_self)]
      exact ih fun x hx => h x (List.mem_cons_of_mem _ hx)

theorem foldl_noise {noise : List Noise} (h : ∀ x ∈ noise, x.Written) (s : ComposeService) :
    (noise.map (·.line)).foldl (blockStep addDependsOn) s = s := by
  refine foldl_of_not_item (fun l hl => ?_) s
  obtain ⟨x, hx, rfl⟩ := List.mem_map.1 hl
  exact isListItem_of_isNoise (isNoise_line (h x hx))

def ComposeService.addDeps (s : ComposeService) (names : List Bytes) : ComposeService :=
  { s with dependsOn := s.dependsOn ++ names }

theorem ComposeService.addDeps_nil (s : ComposeService) : s.addDeps [] = s := by
  rw [addDeps, List.append_nil]

theorem ComposeService.addDeps_addDeps (s : ComposeService) (a b : List Bytes) :
    (s.addDeps a).addDeps b = s.addDeps (a ++ b) := by
  rw [addDeps, addDeps, addDeps, List.append_assoc]

/-- A plain item is read as its name. -/
theorem extractListItem_item {m : Nat} {i : Item} (hw : i.Written m) (hp : i.Plain m) :
    extractListItem (itemLine i.indent i.gap (i.name.written ++ i.trail.text)) = i.name.value ∧
      i.name.value ≠ [] := by
  obtain ⟨-, -, hname, htrail⟩ := hw
  obtain ⟨-, hplain, hcomment⟩ := hp
  have hwritten : i.name.written = i.name.value := by rw [Scalar.written, hplain]
  have hvalue := hname
  rw [Scalar.Written, hplain] at hvalue
  rw [extractListItem_itemLine, trim_append_white (trail_text_white htrail hcomment),
    trim_written hname, hwritten]
  exact ⟨rfl, hvalue.1⟩

theorem foldl_item {m : Nat} {i : Item} (hw : i.Written m) (hp : i.Plain m) (s : ComposeService) :
    i.lines.foldl (blockStep addDependsOn) s = s.addDeps [i.name.value] := by
  obtain ⟨hitem, hne⟩ := extractListItem_item hw hp
  rw [Item.lines, List.foldl_append, foldl_noise hw.1, List.foldl_cons, List.foldl_nil, blockStep,
    isFlushNoise_itemLine, if_neg Bool.false_ne_true, addDependsOn, pushListItem,
    isListItem_itemLine, if_pos rfl, hitem, if_pos hne]
  rfl

theorem foldl_items {m : Nat} {items : List Item} (hw : ∀ i ∈ items, i.Written m)
    (hp : ∀ i ∈ items, i.Plain m) (s : ComposeService) :
    (items.flatMap (·.lines)).foldl (blockStep addDependsOn) s =
      s.addDeps (items.map (·.name.value)) := by
  induction items generalizing s with
  | nil => exact s.addDeps_nil.symm
  | cons i items ih =>
      rw [List.flatMap_cons, List.foldl_append,
        foldl_item (hw i List.mem_cons_self) (hp i List.mem_cons_self),
        ih (fun j hj => hw j (List.mem_cons_of_mem _ hj))
          fun j hj => hp j (List.mem_cons_of_mem _ hj),
        ComposeService.addDeps_addDeps]
      rfl

theorem belowApart_noise {m : Nat} {x : Noise} (hw : x.Written) (hp : x.Apart m) :
    BelowApart m x.line := (apart_line hw hp).imp_right And.left

theorem belowApart_item {m : Nat} {i : Item} (hw : i.Written m) (hp : i.Plain m) :
    ∀ l ∈ i.lines, BelowApart m l := by
  intro l hl
  rcases List.mem_append.1 hl with hl | hl
  · obtain ⟨x, hx, rfl⟩ := List.mem_map.1 hl
    exact belowApart_noise (hw.1 x hx) (hp.1 x hx)
  · rw [List.mem_singleton.1 hl]
    exact Or.inr (by rw [getIndentLevel_itemLine]; exact hw.2.1)

theorem not_item_condition {m : Nat} {c : Condition} (hw : c.Written m) :
    ∀ l ∈ c.lines, isListItem l = false := by
  obtain ⟨hbefore, -, -, hkey, -, hnested⟩ := hw
  intro l hl
  rcases List.mem_append.1 hl with hl | hl
  · obtain ⟨x, hx, rfl⟩ := List.mem_map.1 hl
    exact isListItem_of_isNoise (isNoise_line (hbefore x hx))
  · rcases List.mem_cons.1 hl with rfl | hl
    · exact isListItem_keyLine hkey _ _
    · exact (hnested l hl).2

theorem belowApart_condition {m : Nat} {c : Condition} (hw : c.Written m) (hp : c.Plain m) :
    ∀ l ∈ c.lines, BelowApart m l := by
  obtain ⟨hbefore, hindent, -, hkey, -, -⟩ := hw
  intro l hl
  rcases List.mem_append.1 hl with hl | hl
  · obtain ⟨x, hx, rfl⟩ := List.mem_map.1 hl
    exact belowApart_noise (hbefore x hx) (hp.1 x hx)
  · rcases List.mem_cons.1 hl with rfl | hl
    · exact Or.inr (by rw [getIndentLevel_keyLine hkey]; exact hindent)
    · exact hp.2 l hl

/-- Below `depends_on`, the items of a block list are the names that are added. -/
theorem dependsOn_below {m : Nat} {d : DependsOn} (hw : d.Written m) (hp : d.Plain m) :
    ∃ after below, d.lines m = keyLine m (bytes "depends_on") after :: below ∧
      (∀ l ∈ below, BelowApart m l) ∧
      ∀ s, below.foldl (blockStep addDependsOn) s = s.addDeps d.listed := by
  cases d with
  | list trail items =>
      refine ⟨_, _, rfl, fun l hl => ?_, foldl_items hw.2 hp⟩
      obtain ⟨i, hi, hl⟩ := List.mem_flatMap.1 hl
      exact belowApart_item (hw.2 i hi) (hp i hi) l hl
  | inline names trail =>
      exact ⟨_, [], rfl, fun l hl => absurd hl List.not_mem_nil, fun s => s.addDeps_nil.symm⟩
  | mapping trail conditions =>
      refine ⟨_, _, rfl, fun l hl => ?_, fun s => ?_⟩
      · obtain ⟨c, hc, hl⟩ := List.mem_flatMap.1 hl
        exact belowApart_condition (hw.2 c hc) (hp c hc) l hl
      · rw [foldl_of_not_item, DependsOn.listed, ComposeService.addDeps_nil]
        intro l hl
        obtain ⟨c, hc, hl⟩ := List.mem_flatMap.1 hl
        exact not_item_condition (hw.2 c hc) l hl

/-- Noise after the items may be looked at, but adds nothing. -/
theorem parseBlock_dependsOn_noise {m : Nat} {after : List Noise} (hafter : ∀ x ∈ after, x.Written)
    {rest : List Line} (hstops : Stops m rest) (s : ComposeService) :
    ∃ left, left <:+ after.map (·.line) ∧
      parseBlock m addDependsOn s (after.map (·.line) ++ rest) = (s, left ++ rest) := by
  induction after with
  | nil =>
      refine ⟨[], List.suffix_rfl, run_of_stop (blockTurn_forward m _) fun l ls hl => ?_⟩
      exact blockTurn_of_stops (hl ▸ hstops) s
  | cons x after ih =>
      have hnot := isListItem_of_isNoise (isNoise_line (hafter x List.mem_cons_self))
      obtain ⟨left, hsuf, hrun⟩ := ih fun y hy => hafter y (List.mem_cons_of_mem _ hy)
      by_cases hbelow : BelowApart m x.line
      · refine ⟨left, hsuf.trans (List.suffix_cons _ _), ?_⟩
        rw [List.map_cons, List.cons_append]
        have h := parseBlock_below (f := addDependsOn) (m := m)
          (List.forall_mem_singleton.2 hbelow) s (after.map (·.line) ++ rest)
        rw [List.foldl_cons, List.foldl_nil, blockStep_of_not_item hnot] at h
        exact h.trans hrun
      · refine ⟨(x :: after).map (·.line), List.suffix_rfl, ?_⟩
        rw [BelowApart, not_or, not_lt] at hbelow
        refine run_of_none (blockTurn_forward m _) ?_
        rw [blockTurn, if_neg hbelow.1, if_pos hbelow.2]

/-! ## Entries -/

theorem serviceTurn_noise {n : Nat} {noise : List Noise} (h : ∀ x ∈ noise, x.Written) :
    ∀ l ∈ noise.map (·.line), ∀ s ls, serviceTurn n s l ls = some (s, ls) := by
  intro l hl s ls
  obtain ⟨x, hx, rfl⟩ := List.mem_map.1 hl
  rw [serviceTurn, isNoise_line (h x hx), if_pos rfl]

/-- Noise that a loop left is stepped over. -/
theorem run_service_left {n : Nat} {after : List Noise} (hafter : ∀ x ∈ after, x.Written)
    {left : List Line} (hleft : left <:+ after.map (·.line)) (s : ComposeService)
    (rest : List Line) :
    run (serviceTurn n) s (left ++ rest) = run (serviceTurn n) s rest :=
  run_of_skip (serviceTurn_forward n)
    (fun l hl => serviceTurn_noise hafter l (hleft.subset hl)) s rest

theorem serviceTurn_keyLine {n m : Nat} (hnm : n < m) {key : Bytes} (hkey : KeyText key)
    (after : Bytes) (s : ComposeService) (ls : List Line) :
    serviceTurn n s (keyLine m key after) ls =
      some (parseServiceKey m key (unquote (trim after)) s ls) := by
  rw [serviceTurn, isNoise_keyLine hkey, if_neg Bool.false_ne_true, getIndentLevel_keyLine hkey,
    if_neg (by omega), extractKey_keyLine hkey, extractValue_keyLine hkey]

/-- One entry: the cursor comes to what follows it, and of what is read of the service
exactly the entry's part has changed. -/
theorem run_entry {n m : Nat} (hnm : n < m) {e : Entry} (hw : e.body.Written m)
    (hafter : ∀ x ∈ e.after, x.Written) (hp : e.body.Plain m) {rest : List Line}
    (hstops : Stops m rest) (s : ComposeService) :
    ∃ s', run (serviceTurn n) s (e.lines m ++ rest) = run (serviceTurn n) s' rest ∧
      s'.dependsOn = s.dependsOn ++ e.body.listed ∧
      s'.networkMode = e.body.mode.getD s.networkMode := by
  obtain ⟨body, after⟩ := e
  rw [Entry.lines, List.append_assoc]
  cases body with
  | dependsOn d =>
      obtain ⟨text, below, hlines, hbelow, hfold⟩ := dependsOn_below hw hp
      obtain ⟨left, hleft, hnoise⟩ :=
        parseBlock_dependsOn_noise hafter hstops (s.addDeps d.listed)
      refine ⟨s.addDeps d.listed, ?_, rfl, rfl⟩
      rw [EntryBody.lines, hlines, List.cons_append,
        run_of_some (serviceTurn_forward n) (serviceTurn_keyLine hnm keyText_dependsOn _ _ _)]
      show run _ (parseBlock m addDependsOn s (below ++ _)).1
        (parseBlock m addDependsOn s (below ++ _)).2 = _
      rw [parseBlock_below hbelow, hfold, hnoise]
      exact run_service_left hafter hleft _ _
  | networkMode gap mode trail =>
      refine ⟨{ s with networkMode := mode.value }, ?_, (List.append_nil _).symm, rfl⟩
      have hvalue : unquote (trim (spaces (gap + 1) ++ (mode.written ++ trail.text))) =
          mode.value := by
        rw [trim_spaces_append, trim_append_white (trail_text_white hw.2 hp), trim_written hw.1,
          unquote_written hw.1]
      rw [EntryBody.lines, List.cons_append,
        run_of_some (serviceTurn_forward n) (serviceTurn_keyLine hnm keyText_networkMode _ _ _),
        hvalue]
      exact run_service_left hafter List.suffix_rfl _ _
  | other key text nested =>
      obtain ⟨hkey, hdep, hmode, hscalar, -⟩ := hw
      obtain ⟨hread, left, hleft, hrest⟩ :=
        parseServiceKey_other (unquote (trim text)) hdep hmode (after.map (·.line)) hscalar hp
          hstops s
      refine ⟨(parseServiceKey m key (unquote (trim text)) s
        (nested ++ (after.map (·.line) ++ rest))).1, ?_,
        (congrArg Prod.fst hread).trans (List.append_nil _).symm, congrArg Prod.snd hread⟩
      rw [EntryBody.lines, List.cons_append,
        run_of_some (serviceTurn_forward n) (serviceTurn_keyLine hnm hkey _ _ _)]
      show run _ _ (parseServiceKey m key _ s _).2 = _
      rw [hrest]
      exact run_service_left hafter hleft _ _

end Nazg.Docker

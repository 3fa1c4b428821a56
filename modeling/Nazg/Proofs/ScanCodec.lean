import Nazg.Proofs.ScanText

/-!
# The scan codec

What the decoder makes of the encoder's payload. Each section is found by its
name, whatever the strings before it hold; it is cut out whole when the brackets in
its own strings are balanced, and so are its objects when the braces in theirs are
(`decodeSection_generate`). Of such a scan every string comes back escaped and every
negative number as zero, so the scan itself comes back exactly when no string needs
an escape and no number is negative.
-/

namespace Nazg.Docker

open Lib Agent

/-! ## Arrays -/

/-- An array of the payload between its brackets. -/
def arrayText (objects : List (List (Bytes × FieldValue))) : Bytes :=
  bytes "\n" ++ renderObjects objects ++ bytes "\n  "

theorem renderSection_eq (last : Bool) (name : Bytes)
    (objects : List (List (Bytes × FieldValue))) :
    renderSection last name objects =
      bytes "  " ++ (keyPattern name ++
        32 :: openBracket :: (arrayText objects ++ closeBracket :: lineEnd last)) := by
  rw [renderSection, keyPattern_eq, show bytes "  \"" = bytes "  " ++ [quote] by decide,
    show bytes "\": [\n" = [quote, 58, 32, openBracket] ++ bytes "\n" by decide,
    show bytes "\n  ]" = bytes "\n  " ++ [closeBracket] by decide]
  simp [arrayText, lineEnd]

/-- An array is cut out at its own bracket. -/
theorem extractJsonArray_of_afterKey {json key body rest : Bytes}
    (hafter : afterKey json key = some (32 :: openBracket :: (body ++ closeBracket :: rest)))
    (hbody : depthIn openBracket closeBracket 1 body = some 1) :
    extractJsonArray json key = openBracket :: (body ++ [closeBracket]) := by
  have hskip : (32 :: openBracket :: (body ++ closeBracket :: rest)).dropWhile
      (fun c => isBlank c || c = 10) = openBracket :: (body ++ closeBracket :: rest) := by
    rw [List.dropWhile_cons_of_pos (by decide), List.dropWhile_cons_of_neg (by decide)]
  rw [extractJsonArray, hafter]
  simp only [Option.map_some, hskip, if_true, span_closing (by decide) hbody]

theorem depthIn_of_filter_bracket {u v : Bytes} (h : u.filter isBracket = v.filter isBracket) :
    depthIn openBracket closeBracket 1 u = depthIn openBracket closeBracket 1 v :=
  depthIn_congr (by decide) h

theorem depthIn_of_filter_brace {u v : Bytes} (h : u.filter isBrace = v.filter isBrace) :
    depthIn openBrace closeBrace 1 u = depthIn openBrace closeBrace 1 v :=
  depthIn_congr (by decide) h

/-- A list of names comes back as the text it was written as. -/
theorem extractJsonArray_objectText {fields : List (Bytes × FieldValue)} (h : LegibleFields fields)
    (key : Bytes) {names : List Bytes}
    (hfind : fields.find? (fun f => f.1 = key) = some (key, .raw (servicesArray names)))
    (hnames : depthIn openBracket closeBracket 1 names.flatten = some 1) :
    extractJsonArray (objectText fields) key = servicesArray names := by
  obtain ⟨tail, -, hafter⟩ := afterKey_objectText h hfind
  cases names with
  | nil =>
      have hafter' : afterKey (objectText fields) key =
          some (32 :: openBracket :: ([] ++ closeBracket :: tail)) := hafter
      exact extractJsonArray_of_afterKey hafter' rfl
  | cons name names =>
      have hjson := isDelimiterSet_bracket.filter_jsonString
      have htail : ∀ names : List Bytes, (names.flatMap fun n => bytes "," ++ jsonString n).filter
          isBracket = names.flatten.filter isBracket := by
        intro names
        induction names with
        | nil => rfl
        | cons n names ih =>
            rw [List.flatMap_cons, List.flatten_cons, List.filter_append, List.filter_append,
              List.filter_append, hjson, ih]
            rfl
      have hbody : (jsonString name ++ names.flatMap fun n => bytes "," ++ jsonString n).filter
          isBracket = (name :: names).flatten.filter isBracket := by
        rw [List.filter_append, hjson, htail, List.flatten_cons, List.filter_append]
      rw [← depthIn_of_filter_bracket hbody] at hnames
      have hafter' : afterKey (objectText fields) key = some (32 :: openBracket ::
          ((jsonString name ++ names.flatMap fun n => bytes "," ++ jsonString n) ++
            closeBracket :: tail)) := by
        rw [hafter, FieldValue.render, servicesArray]
        simp
      exact extractJsonArray_of_afterKey hafter' hnames

/-! ## Objects -/

theorem objectsLoop_of_notMem {s : Bytes} (h : openBrace ∉ s) (fuel : Nat) :
    objectsLoop fuel s = [] := by
  cases fuel with
  | zero => rfl
  | succ fuel =>
      have hskip : s.dropWhile (· ≠ openBrace) = [] :=
        List.dropWhile_eq_nil_iff.2 fun c hc => by
          have hne : c ≠ openBrace := fun he => h (he ▸ hc)
          simpa using hne
      rw [objectsLoop, hskip]

theorem objectsLoop_skip {gap : Bytes} (h : openBrace ∉ gap) (s : Bytes) (fuel : Nat) :
    objectsLoop (fuel + 1) (gap ++ openBrace :: s) =
      (openBrace :: (span openBrace closeBrace 1 s).1) ::
        objectsLoop fuel (span openBrace closeBrace 1 s).2.1 := by
  have hskip : (gap ++ openBrace :: s).dropWhile (· ≠ openBrace) = openBrace :: s := by
    rw [List.dropWhile_append_of_pos, List.dropWhile_cons_of_neg (by simp)]
    intro c hc
    have hne : c ≠ openBrace := fun he => h (he ▸ hc)
    simpa using hne
  rw [objectsLoop, hskip]

/-- An object whose braces are balanced is cut out at its own brace. -/
theorem span_object {fields : List (Bytes × FieldValue)} (h : LegibleFields fields)
    (hbraces : depthIn openBrace closeBrace 1 (contents fields) = some 1) (rest : Bytes) :
    span openBrace closeBrace 1
        (bytes "\n" ++ renderFields fields ++ bytes "    " ++ closeBrace :: rest) =
      (bytes "\n" ++ renderFields fields ++ bytes "    " ++ [closeBrace], rest, 0) := by
  refine span_closing (by decide) ?_ rest
  rw [depthIn_of_filter_brace (isDelimiterSet_brace.filter_objectLines h)]
  exact hbraces

/-- The loop finds the objects of an array one after the other. -/
theorem objectsLoop_renderObjects {objects : List (List (Bytes × FieldValue))}
    (hlegible : ∀ o ∈ objects, LegibleFields o)
    (hbraces : ∀ o ∈ objects, depthIn openBrace closeBrace 1 (contents o) = some 1)
    {gap tail : Bytes} (hgap : openBrace ∉ gap) (htail : openBrace ∉ tail) {fuel : Nat}
    (hfuel : objects.length ≤ fuel) :
    objectsLoop fuel (gap ++ renderObjects objects ++ tail) = objects.map objectText := by
  cases objects with
  | nil =>
      refine objectsLoop_of_notMem ?_ fuel
      simp [renderObjects, hgap, htail]
  | cons o objects =>
      -- after each object stands a separator and the next one, or the end
      have hloop : ∀ (objects : List (List (Bytes × FieldValue))) (o : List (Bytes × FieldValue))
          (gap : Bytes) (fuel : Nat), openBrace ∉ gap → objects.length + 1 ≤ fuel →
          (∀ x ∈ o :: objects, LegibleFields x) →
          (∀ x ∈ o :: objects, depthIn openBrace closeBrace 1 (contents x) = some 1) →
          objectsLoop fuel (gap ++ (renderObject o ++
            ((objects.flatMap fun o => bytes ",\n" ++ renderObject o) ++ tail))) =
            (o :: objects).map objectText := by
        intro objects
        induction objects with
        | nil =>
            intro o gap fuel hgap hfuel hl hb
            obtain ⟨fuel, rfl⟩ : ∃ m, fuel = m + 1 := ⟨fuel - 1, by simp at hfuel; omega⟩
            have hspan := span_object (hl o List.mem_cons_self) (hb o List.mem_cons_self) tail
            have hsplit : gap ++ (renderObject o ++ tail) = (gap ++ bytes "    ") ++ openBrace ::
                (bytes "\n" ++ renderFields o ++ bytes "    " ++ closeBrace :: tail) := by
              simp [renderObject]
            have hgap' : openBrace ∉ gap ++ bytes "    " := by
              rw [List.mem_append, not_or]
              exact ⟨hgap, by decide⟩
            rw [List.flatMap_nil, List.nil_append, hsplit, objectsLoop_skip hgap', hspan,
              objectsLoop_of_notMem htail]
            rfl
        | cons o' objects ih =>
            intro o gap fuel hgap hfuel hl hb
            obtain ⟨fuel, rfl⟩ : ∃ m, fuel = m + 1 := ⟨fuel - 1, by omega⟩
            have hspan := span_object (hl o List.mem_cons_self) (hb o List.mem_cons_self)
              (bytes ",\n" ++ (renderObject o' ++
                ((objects.flatMap fun o => bytes ",\n" ++ renderObject o) ++ tail)))
            have hsplit : gap ++ (renderObject o ++
                (((o' :: objects).flatMap fun o => bytes ",\n" ++ renderObject o) ++ tail)) =
                (gap ++ bytes "    ") ++ openBrace ::
                  (bytes "\n" ++ renderFields o ++ bytes "    " ++ closeBrace ::
                    (bytes ",\n" ++ (renderObject o' ++
                      ((objects.flatMap fun o => bytes ",\n" ++ renderObject o) ++ tail)))) := by
              simp [renderObject]
            have hgap' : openBrace ∉ gap ++ bytes "    " := by
              rw [List.mem_append, not_or]
              exact ⟨hgap, by decide⟩
            rw [hsplit, objectsLoop_skip hgap', hspan,
              ih o' (bytes ",\n") fuel (by decide) (by simp at hfuel; omega)
                (fun x hx => hl x (List.mem_cons_of_mem _ hx))
                fun x hx => hb x (List.mem_cons_of_mem _ hx)]
            rfl
      have hrun := hloop objects o gap fuel hgap hfuel hlegible hbraces
      rw [renderObjects]
      simp only [List.append_assoc] at hrun ⊢
      exact hrun

theorem length_le_renderObjects (objects : List (List (Bytes × FieldValue))) :
    objects.length ≤ (renderObjects objects).length := by
  cases objects with
  | nil => exact Nat.le_refl 0
  | cons o objects =>
      have htail : ∀ objects : List (List (Bytes × FieldValue)),
          objects.length ≤ (objects.flatMap fun o => bytes ",\n" ++ renderObject o).length := by
        intro objects
        induction objects with
        | nil => exact Nat.le_refl 0
        | cons o objects ih =>
            rw [List.flatMap_cons, List.length_append, List.length_append, List.length_cons,
              show (bytes ",\n").length = 2 by decide]
            omega
      have hlen := htail objects
      rw [renderObjects, List.length_append, List.length_cons, renderObject, List.length_append,
        List.length_cons]
      omega

/-- Past its opening bracket an array of the payload holds its objects. -/
theorem jsonObjects_arrayText {objects : List (List (Bytes × FieldValue))}
    (hlegible : ∀ o ∈ objects, LegibleFields o)
    (hbraces : ∀ o ∈ objects, depthIn openBrace closeBrace 1 (contents o) = some 1) :
    jsonObjects (openBracket :: (arrayText objects ++ [closeBracket])) =
      objects.map objectText := by
  have hlen := length_le_renderObjects objects
  have htext : (openBracket :: (arrayText objects ++ [closeBracket])).drop 1 =
      bytes "\n" ++ renderObjects objects ++ (bytes "\n  " ++ [closeBracket]) := by
    simp [arrayText]
  rw [jsonObjects, htext]
  refine objectsLoop_renderObjects hlegible hbraces (by decide) (by decide) ?_
  simp only [arrayText, List.length_cons, List.length_append]
  omega

/-! ## Sections -/

/-- No pattern of the key begins in the region, whatever follows. -/
def KeyFree (key region : Bytes) : Prop := ∀ rest, NoMatch (keyPattern key) region rest

theorem KeyFree.append {key r₁ r₂ : Bytes} (h₁ : KeyFree key r₁) (h₂ : KeyFree key r₂) :
    KeyFree key (r₁ ++ r₂) := fun rest => NoMatch.append (h₁ _) (h₂ rest)

theorem keyFree_of_no_quote {key region : Bytes} (h : quote ∉ region) : KeyFree key region :=
  fun rest => noMatch_of_no_quote h rest

theorem keyFree_renderSection {key : Bytes} (hkey : IsKey key) {name : Bytes} (hname : IsKey name)
    (hne : name ≠ key) {objects : List (List (Bytes × FieldValue))}
    (hlegible : ∀ o ∈ objects, LegibleFields o) (hkeys : ∀ o ∈ objects, ∀ f ∈ o, f.1 ≠ key)
    (last : Bool) : KeyFree key (renderSection last name objects) := by
  have hobject : ∀ o ∈ objects, KeyFree key (renderObject o) := by
    intro o ho
    have hlines : KeyFree key (renderFields o) :=
      noMatch_renderFields hkey (hlegible o ho) (hkeys o ho)
    have hbrace : KeyFree key ([openBrace] ++ (bytes "\n" ++ renderFields o ++ bytes "    " ++
        [closeBrace])) :=
      (keyFree_of_no_quote (by decide)).append
        ((((keyFree_of_no_quote (by decide)).append hlines).append
          (keyFree_of_no_quote (by decide))).append (keyFree_of_no_quote (by decide)))
    exact (keyFree_of_no_quote (by decide)).append hbrace
  have hobjects : KeyFree key (renderObjects objects) := by
    cases objects with
    | nil => exact fun rest => NoMatch.nil _ _
    | cons o objects =>
        refine (hobject o List.mem_cons_self).append ?_
        have hrest : ∀ x ∈ objects, KeyFree key (renderObject x) :=
          fun x hx => hobject x (List.mem_cons_of_mem _ hx)
        clear hobject hlegible hkeys
        induction objects with
        | nil => exact fun rest => NoMatch.nil _ _
        | cons x objects ih =>
            rw [List.flatMap_cons]
            exact ((keyFree_of_no_quote (by decide)).append (hrest x List.mem_cons_self)).append
              (ih fun y hy => hrest y (List.mem_cons_of_mem _ hy))
  rw [renderSection_eq]
  refine (keyFree_of_no_quote (by decide)).append (KeyFree.append ?_ ?_)
  · exact noMatch_keyPattern hkey hname hne
  · have hstart : KeyFree key [32, openBracket] := keyFree_of_no_quote (by decide)
    have hend : KeyFree key (closeBracket :: lineEnd last) := by
      cases last <;> exact keyFree_of_no_quote (by decide)
    have hbody : KeyFree key (arrayText objects) :=
      ((keyFree_of_no_quote (by decide)).append hobjects).append (keyFree_of_no_quote (by decide))
    exact hstart.append (hbody.append hend)

theorem keyFree_renderHeader {key : Bytes} (hkey : IsKey key) (hlabel : bytes "server_label" ≠ key)
    (htime : bytes "timestamp" ≠ key) (timestamp : Int) (serverLabel : Bytes) :
    KeyFree key (renderHeader timestamp serverLabel) := by
  have htext : renderHeader timestamp serverLabel =
      ([openBrace] ++ bytes "\n  ") ++ (keyPattern (bytes "server_label") ++
        ([32] ++ (jsonString serverLabel ++ (bytes ",\n  " ++ (keyPattern (bytes "timestamp") ++
          ([32] ++ (decimal timestamp ++ bytes ",\n"))))))) := by
    rw [renderHeader, keyPattern_eq, keyPattern_eq,
      show bytes "  \"server_label\": " = bytes "  " ++ [quote] ++ bytes "server_label" ++
        [quote, 58, 32] by decide,
      show bytes "  \"timestamp\": " = bytes "  " ++ [quote] ++ bytes "timestamp" ++
        [quote, 58, 32] by decide,
      show bytes "\n  " = bytes "\n" ++ bytes "  " by decide,
      show bytes ",\n  " = bytes ",\n" ++ bytes "  " by decide]
    simp
  rw [htext]
  refine (keyFree_of_no_quote (by decide)).append (KeyFree.append ?_ ?_)
  · exact noMatch_keyPattern hkey (by decide) hlabel
  · refine (keyFree_of_no_quote (by decide)).append fun rest => ?_
    refine NoMatch.append (noMatch_jsonString hkey ⟨44, _, rfl, by simp⟩ serverLabel) ?_
    refine NoMatch.append (noMatch_of_no_quote (by decide) _) (NoMatch.append ?_ ?_)
    · exact noMatch_keyPattern hkey (by decide) htime _
    · refine NoMatch.append (noMatch_of_no_quote (by decide) _) (NoMatch.append ?_ ?_)
      · exact noMatch_of_no_quote (fun h => absurd (lt_of_mem_decimal h) (by decide)) _
      · exact noMatch_of_no_quote (by decide) _

theorem filter_arrayText {p : UInt8 → Bool} (hp : IsDelimiterSet p)
    (hbraces : p openBrace = false ∧ p closeBrace = false)
    {objects : List (List (Bytes × FieldValue))} (hlegible : ∀ o ∈ objects, LegibleFields o) :
    (arrayText objects).filter p = (objects.flatMap contents).filter p := by
  have hobject : ∀ o ∈ objects, (renderObject o).filter p = (contents o).filter p := by
    intro o ho
    have hlines := hp.filter_objectLines (hlegible o ho)
    have hindent : (bytes "    ").filter p = [] := hp.filter_layout (by decide)
    rw [renderObject, List.filter_append, hindent, List.filter_cons_of_neg (by simp [hbraces.1]),
      List.filter_append, hlines, List.filter_cons_of_neg (by simp [hbraces.2])]
    simp
  have hsep : (bytes ",\n").filter p = [] := hp.filter_layout (by decide)
  have hobjects : (renderObjects objects).filter p = (objects.flatMap contents).filter p := by
    cases objects with
    | nil => rfl
    | cons o objects =>
        have htail : ∀ objects : List (List (Bytes × FieldValue)),
            (∀ o ∈ objects, (renderObject o).filter p = (contents o).filter p) →
            (objects.flatMap fun o => bytes ",\n" ++ renderObject o).filter p =
              (objects.flatMap contents).filter p := by
          intro objects
          induction objects with
          | nil => intro _; rfl
          | cons o objects ih =>
              intro h
              rw [List.flatMap_cons, List.flatMap_cons, List.filter_append, List.filter_append,
                List.filter_append, hsep, h o List.mem_cons_self,
                ih fun x hx => h x (List.mem_cons_of_mem _ hx), List.nil_append]
        rw [renderObjects, List.flatMap_cons, List.filter_append, List.filter_append,
          hobject o List.mem_cons_self,
          htail objects fun x hx => hobject x (List.mem_cons_of_mem _ hx)]
  have hbreak : (bytes "\n").filter p = [] := hp.filter_layout (by decide)
  have hindent : (bytes "\n  ").filter p = [] := hp.filter_layout (by decide)
  rw [arrayText, List.filter_append, List.filter_append, hobjects, hbreak, hindent,
    List.nil_append, List.append_nil]

/-- The strings of a section leave its delimiters alone: brackets balance over the
whole section, braces within each object. -/
structure Balanced (objects : List (List (Bytes × FieldValue))) : Prop where
  legible : ∀ o ∈ objects, LegibleFields o
  brackets : depthIn openBracket closeBracket 1 (objects.flatMap contents) = some 1
  braces : ∀ o ∈ objects, depthIn openBrace closeBrace 1 (contents o) = some 1

/-- A balanced section is decoded from its own objects, wherever it stands. -/
theorem decodeSection_renderSection {σ : Type} {name : String} (decode : Bytes → σ)
    (key : σ → Bytes) {region : Bytes} (hregion : KeyFree (bytes name) region) (last : Bool)
    {objects : List (List (Bytes × FieldValue))} (h : Balanced objects) (rest : Bytes) :
    decodeSection name decode key (region ++ renderSection last (bytes name) objects ++ rest) =
      ((objects.map objectText).map decode).filter fun x => key x ≠ [] := by
  have hafter : afterKey (region ++ renderSection last (bytes name) objects ++ rest) (bytes name) =
      some (32 :: openBracket :: (arrayText objects ++ closeBracket :: (lineEnd last ++ rest))) := by
    have htext : region ++ renderSection last (bytes name) objects ++ rest =
        (region ++ bytes "  ") ++ (keyPattern (bytes name) ++
          32 :: openBracket :: (arrayText objects ++ closeBracket :: (lineEnd last ++ rest))) := by
      rw [renderSection_eq]
      simp
    rw [htext]
    exact afterKey_region _ (hregion.append (keyFree_of_no_quote (by decide)) _)
  have hbody : depthIn openBracket closeBracket 1 (arrayText objects) = some 1 := by
    rw [depthIn_of_filter_bracket (filter_arrayText isDelimiterSet_bracket (by decide) h.legible)]
    exact h.brackets
  rw [decodeSection, extractJsonArray_of_afterKey hafter hbody,
    jsonObjects_arrayText h.legible h.braces]

/-! ## The records of a scan -/

def sectionNames : List Bytes :=
  [bytes "containers", bytes "compose_files", bytes "images", bytes "networks", bytes "volumes"]

/-- The lines of an object carry keys none of which names a section. -/
def HasFieldKeys (fields : List (Bytes × FieldValue)) : Prop :=
  ∀ f ∈ fields, IsKey f.1 ∧ f.1 ∉ sectionNames

theorem hasFieldKeys_of_keys {fields : List (Bytes × FieldValue)}
    (h : ∀ k ∈ fields.map Prod.fst, IsKey k ∧ k ∉ sectionNames) : HasFieldKeys fields :=
  fun _ hf => h _ (List.mem_map_of_mem hf)

theorem hasFieldKeys_container (c : ContainerInfo) : HasFieldKeys c.fields := by
  have hkeys : ∀ k ∈ [bytes "id", bytes "name", bytes "image", bytes "state", bytes "status",
      bytes "created", bytes "service_name", bytes "health_status", bytes "restart_policy"],
      IsKey k ∧ k ∉ sectionNames := by decide
  exact hasFieldKeys_of_keys hkeys

theorem hasFieldKeys_composeFile (cf : ComposeFileInfo) : HasFieldKeys cf.fields := by
  have hkeys : ∀ k ∈ [bytes "path", bytes "project_name", bytes "services", bytes "hash"],
      IsKey k ∧ k ∉ sectionNames := by decide
  exact hasFieldKeys_of_keys hkeys

theorem hasFieldKeys_image (img : DockerImageInfo) : HasFieldKeys img.fields := by
  have hkeys : ∀ k ∈ [bytes "id", bytes "repository", bytes "tag", bytes "size_bytes",
      bytes "created"], IsKey k ∧ k ∉ sectionNames := by decide
  exact hasFieldKeys_of_keys hkeys

theorem hasFieldKeys_network (net : DockerNetworkInfo) : HasFieldKeys net.fields := by
  have hkeys : ∀ k ∈ [bytes "id", bytes "name", bytes "driver", bytes "scope"],
      IsKey k ∧ k ∉ sectionNames := by decide
  exact hasFieldKeys_of_keys hkeys

theorem hasFieldKeys_volume (vol : DockerVolumeInfo) : HasFieldKeys vol.fields := by
  have hkeys : ∀ k ∈ [bytes "name", bytes "driver", bytes "mountpoint"],
      IsKey k ∧ k ∉ sectionNames := by decide
  exact hasFieldKeys_of_keys hkeys

theorem legibleFields_of_keys {fields : List (Bytes × FieldValue)} (h : HasFieldKeys fields)
    (hv : ∀ f ∈ fields, Legible f.2) : LegibleFields fields :=
  fun f hf => ⟨(h f hf).1, hv f hf⟩

theorem legibleFields_container (c : ContainerInfo) : LegibleFields c.fields :=
  legibleFields_of_keys (hasFieldKeys_container c) (by simp [ContainerInfo.fields, Legible])

theorem legibleFields_composeFile {cf : ComposeFileInfo}
    (h : ∃ names, cf.servicesJson = servicesArray names) : LegibleFields cf.fields :=
  legibleFields_of_keys (hasFieldKeys_composeFile cf) (by simpa [ComposeFileInfo.fields, Legible])

theorem legibleFields_image (img : DockerImageInfo) : LegibleFields img.fields :=
  legibleFields_of_keys (hasFieldKeys_image img) (by simp [DockerImageInfo.fields, Legible])

theorem legibleFields_network (net : DockerNetworkInfo) : LegibleFields net.fields :=
  legibleFields_of_keys (hasFieldKeys_network net) (by simp [DockerNetworkInfo.fields, Legible])

theorem legibleFields_volume (vol : DockerVolumeInfo) : LegibleFields vol.fields :=
  legibleFields_of_keys (hasFieldKeys_volume vol) (by simp [DockerVolumeInfo.fields, Legible])

/-- How a number arrives. -/
def received (i : Int64) : Int := if i.toInt < 0 then 0 else i.toInt

/-! ### What was scanned, and what arrives -/

def scannedContainer (c : ContainerInfo) : ScannedContainer :=
  ⟨c.id, c.name, c.image, c.state, c.status, c.created.toInt, c.serviceName, c.healthStatus,
    c.restartPolicy⟩

def receivedContainer (c : ContainerInfo) : ScannedContainer :=
  ⟨escapeJson c.id, escapeJson c.name, escapeJson c.image, escapeJson c.state,
    escapeJson c.status, received c.created, escapeJson c.serviceName,
    escapeJson c.healthStatus, escapeJson c.restartPolicy⟩

def scannedComposeFile (cf : ComposeFileInfo) : ScannedComposeFile :=
  ⟨cf.path, cf.projectName, cf.servicesJson, cf.fileHash⟩

def receivedComposeFile (cf : ComposeFileInfo) : ScannedComposeFile :=
  ⟨escapeJson cf.path, escapeJson cf.projectName, cf.servicesJson, escapeJson cf.fileHash⟩

def scannedImage (img : DockerImageInfo) : ScannedImage :=
  ⟨img.id, img.repository, img.tag, img.sizeBytes.toInt, img.created.toInt⟩

def receivedImage (img : DockerImageInfo) : ScannedImage :=
  ⟨escapeJson img.id, escapeJson img.repository, escapeJson img.tag, received img.sizeBytes,
    received img.created⟩

def scannedNetwork (net : DockerNetworkInfo) : ScannedNetwork :=
  ⟨net.id, net.name, net.driver, net.scope⟩

def receivedNetwork (net : DockerNetworkInfo) : ScannedNetwork :=
  ⟨escapeJson net.id, escapeJson net.name, escapeJson net.driver, escapeJson net.scope⟩

def scannedVolume (vol : DockerVolumeInfo) : ScannedVolume :=
  ⟨vol.name, vol.driver, vol.mountpoint⟩

def receivedVolume (vol : DockerVolumeInfo) : ScannedVolume :=
  ⟨escapeJson vol.name, escapeJson vol.driver, escapeJson vol.mountpoint⟩

theorem decodeContainer_fields (c : ContainerInfo) :
    decodeContainer (objectText c.fields) = receivedContainer c := by
  have hstring := extractJsonString_objectText (legibleFields_container c)
  have hint := extractJsonInt_objectText (legibleFields_container c)
  simp only [decodeContainer, receivedContainer, received, ScannedContainer.mk.injEq]
  refine ⟨hstring _ _ ?_, hstring _ _ ?_, hstring _ _ ?_, hstring _ _ ?_, hstring _ _ ?_,
    hint _ _ ?_, hstring _ _ ?_, hstring _ _ ?_, hstring _ _ ?_⟩ <;>
  simp +decide [ContainerInfo.fields, List.find?]

theorem decodeComposeFile_fields {cf : ComposeFileInfo} {names : List Bytes}
    (hservices : cf.servicesJson = servicesArray names)
    (hnames : depthIn openBracket closeBracket 1 names.flatten = some 1) :
    decodeComposeFile (objectText cf.fields) = receivedComposeFile cf := by
  have hlegible := legibleFields_composeFile ⟨names, hservices⟩
  have hstring := extractJsonString_objectText hlegible
  have harray : extractJsonArray (objectText cf.fields) (bytes "services") = cf.servicesJson := by
    rw [hservices]
    refine extractJsonArray_objectText hlegible _ ?_ hnames
    simp +decide [ComposeFileInfo.fields, List.find?, hservices]
  simp only [decodeComposeFile, receivedComposeFile, harray, ScannedComposeFile.mk.injEq, true_and]
  refine ⟨hstring _ _ ?_, hstring _ _ ?_, hstring _ _ ?_⟩ <;>
  simp +decide [ComposeFileInfo.fields, List.find?]

theorem decodeImage_fields (img : DockerImageInfo) :
    decodeImage (objectText img.fields) = receivedImage img := by
  have hstring := extractJsonString_objectText (legibleFields_image img)
  have hint := extractJsonInt_objectText (legibleFields_image img)
  simp only [decodeImage, receivedImage, received, ScannedImage.mk.injEq]
  refine ⟨hstring _ _ ?_, hstring _ _ ?_, hstring _ _ ?_, hint _ _ ?_, hint _ _ ?_⟩ <;>
  simp +decide [DockerImageInfo.fields, List.find?]

theorem decodeNetwork_fields (net : DockerNetworkInfo) :
    decodeNetwork (objectText net.fields) = receivedNetwork net := by
  have hstring := extractJsonString_objectText (legibleFields_network net)
  simp only [decodeNetwork, receivedNetwork, ScannedNetwork.mk.injEq]
  refine ⟨hstring _ _ ?_, hstring _ _ ?_, hstring _ _ ?_, hstring _ _ ?_⟩ <;>
  simp +decide [DockerNetworkInfo.fields, List.find?]

theorem decodeVolume_fields (vol : DockerVolumeInfo) :
    decodeVolume (objectText vol.fields) = receivedVolume vol := by
  have hstring := extractJsonString_objectText (legibleFields_volume vol)
  simp only [decodeVolume, receivedVolume, ScannedVolume.mk.injEq]
  refine ⟨hstring _ _ ?_, hstring _ _ ?_, hstring _ _ ?_⟩ <;>
  simp +decide [DockerVolumeInfo.fields, List.find?]

/-! ### Plain values -/

/-- A value the codec returns as it is. -/
def PlainValue : FieldValue → Prop
  | .string s => Plain s
  | .integer i => 0 ≤ i.toInt
  | .raw _ => True

theorem received_eq_iff (i : Int64) : received i = i.toInt ↔ 0 ≤ i.toInt := by
  rw [received]
  split
  · next h => exact ⟨fun h0 => by omega, fun h0 => by omega⟩
  · next h => exact ⟨fun _ => by omega, fun _ => rfl⟩

theorem receivedContainer_eq_iff (c : ContainerInfo) :
    receivedContainer c = scannedContainer c ↔ ∀ f ∈ c.fields, PlainValue f.2 := by
  simp [receivedContainer, scannedContainer, escapeJson_eq_self, received_eq_iff,
    ContainerInfo.fields, PlainValue]

theorem receivedComposeFile_eq_iff (cf : ComposeFileInfo) :
    receivedComposeFile cf = scannedComposeFile cf ↔ ∀ f ∈ cf.fields, PlainValue f.2 := by
  simp [receivedComposeFile, scannedComposeFile, escapeJson_eq_self, ComposeFileInfo.fields,
    PlainValue]

theorem receivedImage_eq_iff (img : DockerImageInfo) :
    receivedImage img = scannedImage img ↔ ∀ f ∈ img.fields, PlainValue f.2 := by
  simp [receivedImage, scannedImage, escapeJson_eq_self, received_eq_iff, DockerImageInfo.fields,
    PlainValue]

theorem receivedNetwork_eq_iff (net : DockerNetworkInfo) :
    receivedNetwork net = scannedNetwork net ↔ ∀ f ∈ net.fields, PlainValue f.2 := by
  simp [receivedNetwork, scannedNetwork, escapeJson_eq_self, DockerNetworkInfo.fields, PlainValue]

theorem receivedVolume_eq_iff (vol : DockerVolumeInfo) :
    receivedVolume vol = scannedVolume vol ↔ ∀ f ∈ vol.fields, PlainValue f.2 := by
  simp [receivedVolume, scannedVolume, escapeJson_eq_self, DockerVolumeInfo.fields, PlainValue]

/-! ## The round trip -/

/-- The objects of the five sections. -/
def sections (scan : Scan) : List (List (List (Bytes × FieldValue))) :=
  [scan.containers.map (·.fields), scan.composeFiles.map (·.fields), scan.images.map (·.fields),
    scan.networks.map (·.fields), scan.volumes.map (·.fields)]

/-- The strings of a scan do not disturb the cutting: the brackets in the strings of
each section balance, the braces in the strings of each record balance, and the
services of a compose file are an array of names whose brackets balance. -/
structure Delimited (scan : Scan) : Prop where
  brackets : ∀ objects ∈ sections scan,
    depthIn openBracket closeBracket 1 (objects.flatMap contents) = some 1
  braces : ∀ objects ∈ sections scan, ∀ o ∈ objects,
    depthIn openBrace closeBrace 1 (contents o) = some 1
  services : ∀ cf ∈ scan.composeFiles, ∃ names, cf.servicesJson = servicesArray names ∧
    depthIn openBracket closeBracket 1 names.flatten = some 1

/-- Every record has the key the import asks for. -/
structure HasKeys (scan : Scan) : Prop where
  containers : ∀ c ∈ scan.containers, c.id ≠ []
  composeFiles : ∀ cf ∈ scan.composeFiles, cf.path ≠ []
  images : ∀ img ∈ scan.images, img.id ≠ []
  networks : ∀ net ∈ scan.networks, net.id ≠ []
  volumes : ∀ vol ∈ scan.volumes, vol.name ≠ []

/-- The decoder returns the records of the scan, in order and unchanged. -/
structure RoundTrips (timestamp : Int) (serverLabel : Bytes) (scan : Scan) : Prop where
  containers : decodeContainers (generateFullScanJson timestamp serverLabel scan) =
    scan.containers.map scannedContainer
  composeFiles : decodeComposeFiles (generateFullScanJson timestamp serverLabel scan) =
    scan.composeFiles.map scannedComposeFile
  images : decodeImages (generateFullScanJson timestamp serverLabel scan) =
    scan.images.map scannedImage
  networks : decodeNetworks (generateFullScanJson timestamp serverLabel scan) =
    scan.networks.map scannedNetwork
  volumes : decodeVolumes (generateFullScanJson timestamp serverLabel scan) =
    scan.volumes.map scannedVolume

/-- Decoding a balanced section record by record. -/
theorem decodeSection_records {σ τ : Type} {name : String} {decode : Bytes → σ} {key : σ → Bytes}
    {region : Bytes} (hregion : KeyFree (bytes name) region) (last : Bool) (rest : Bytes)
    {xs : List τ} {fields : τ → List (Bytes × FieldValue)} {arrived : τ → σ}
    (h : Balanced (xs.map fields)) (hdecode : ∀ x ∈ xs, decode (objectText (fields x)) = arrived x)
    (hkey : ∀ x ∈ xs, key (arrived x) ≠ []) :
    decodeSection name decode key (region ++ renderSection last (bytes name) (xs.map fields) ++ rest) =
      xs.map arrived := by
  have hmap : ((xs.map fields).map objectText).map decode = xs.map arrived := by
    simp only [List.map_map]
    exact List.map_congr_left hdecode
  rw [decodeSection_renderSection decode key hregion last h rest, hmap,
    List.filter_eq_self.2 fun y hy => ?_]
  obtain ⟨x, hx, rfl⟩ := List.mem_map.1 hy
  simpa using hkey x hx

/-- A section hides no other section's name. -/
theorem keyFree_section {τ : Type} {fields : τ → List (Bytes × FieldValue)} {xs : List τ}
    (hlegible : ∀ x ∈ xs, LegibleFields (fields x)) (hkeys : ∀ x, HasFieldKeys (fields x))
    {key name : Bytes} (hkey : key ∈ sectionNames) (hname : name ∈ sectionNames) (hne : name ≠ key)
    (last : Bool) : KeyFree key (renderSection last name (xs.map fields)) := by
  have hall : ∀ k ∈ sectionNames, IsKey k := by decide
  refine keyFree_renderSection (hall key hkey) (hall name hname) hne ?_ ?_ last
  · intro o ho
    obtain ⟨x, hx, rfl⟩ := List.mem_map.1 ho
    exact hlegible x hx
  · intro o ho f hf hfk
    obtain ⟨x, -, rfl⟩ := List.mem_map.1 ho
    exact (hkeys x f hf).2 (hfk ▸ hkey)

theorem keyFree_header {key : Bytes} (hkey : key ∈ sectionNames) (timestamp : Int)
    (serverLabel : Bytes) : KeyFree key (renderHeader timestamp serverLabel) := by
  have hall : ∀ k ∈ sectionNames, IsKey k ∧ bytes "server_label" ≠ k ∧ bytes "timestamp" ≠ k := by
    decide
  obtain ⟨hk, hlabel, htime⟩ := hall key hkey
  exact keyFree_renderHeader hk hlabel htime timestamp serverLabel

/-- What arrives of the images, whatever the containers and the sections behind say. -/
theorem decodeImages_generated {scan : Scan}
    (hservices : ∀ cf ∈ scan.composeFiles, ∃ names, cf.servicesJson = servicesArray names)
    (h : Balanced (scan.images.map (·.fields))) (hkeys : ∀ img ∈ scan.images, img.id ≠ [])
    (timestamp : Int) (serverLabel : Bytes) :
    decodeImages (generateFullScanJson timestamp serverLabel scan) =
      scan.images.map receivedImage := by
  have hcontainers : KeyFree (bytes "images")
      (renderSection false (bytes "containers") (scan.containers.map (·.fields))) :=
    keyFree_section (fun c _ => legibleFields_container c) hasFieldKeys_container (by decide)
      (by decide) (by decide) false
  have hcompose : KeyFree (bytes "images")
      (renderSection false (bytes "compose_files") (scan.composeFiles.map (·.fields))) :=
    keyFree_section (fun cf hcf => legibleFields_composeFile (hservices cf hcf))
      hasFieldKeys_composeFile (by decide) (by decide) (by decide) false
  have hheader : KeyFree (bytes "images") (renderHeader timestamp serverLabel) :=
    keyFree_header (by decide) timestamp serverLabel
  rw [generateFullScanJson, List.append_assoc (_ ++ renderSection false (bytes "images") _),
    List.append_assoc (_ ++ renderSection false (bytes "images") _)]
  exact decodeSection_records ((hheader.append hcontainers).append hcompose) false _ h
    (fun img _ => decodeImage_fields img) fun img hi => escapeJson_ne_nil (hkeys img hi)

/-- What arrives of a delimited scan: every record, in order, its strings escaped and
its negative numbers zero. -/
theorem generate_received {scan : Scan} (h : Delimited scan) (hkeys : HasKeys scan)
    (timestamp : Int) (serverLabel : Bytes) :
    let payload := generateFullScanJson timestamp serverLabel scan
    decodeContainers payload = scan.containers.map receivedContainer ∧
      decodeComposeFiles payload = scan.composeFiles.map receivedComposeFile ∧
      decodeImages payload = scan.images.map receivedImage ∧
      decodeNetworks payload = scan.networks.map receivedNetwork ∧
      decodeVolumes payload = scan.volumes.map receivedVolume := by
  have hcompose : ∀ cf ∈ scan.composeFiles, LegibleFields cf.fields := fun cf hcf =>
    legibleFields_composeFile ((h.services cf hcf).imp fun _ hn => hn.1)
  have hbalanced : ∀ objects ∈ sections scan, (∀ o ∈ objects, LegibleFields o) →
      Balanced objects := fun objects hmem hlegible =>
    ⟨hlegible, h.brackets objects hmem, h.braces objects hmem⟩
  have hlegible : ∀ {τ : Type} {fields : τ → List (Bytes × FieldValue)} {xs : List τ},
      (∀ x ∈ xs, LegibleFields (fields x)) → ∀ o ∈ xs.map fields, LegibleFields o := by
    intro τ fields xs hx o ho
    obtain ⟨x, hmem, rfl⟩ := List.mem_map.1 ho
    exact hx x hmem
  -- the sections, and the regions before them
  generalize hs₁ : renderSection false (bytes "containers") (scan.containers.map (·.fields)) = s₁
  generalize hs₂ : renderSection false (bytes "compose_files")
    (scan.composeFiles.map (·.fields)) = s₂
  generalize hs₃ : renderSection false (bytes "images") (scan.images.map (·.fields)) = s₃
  generalize hs₄ : renderSection false (bytes "networks") (scan.networks.map (·.fields)) = s₄
  generalize hs₅ : renderSection true (bytes "volumes") (scan.volumes.map (·.fields)) = s₅
  have hpayload : generateFullScanJson timestamp serverLabel scan =
      renderHeader timestamp serverLabel ++ s₁ ++ s₂ ++ s₃ ++ s₄ ++ s₅ ++ [closeBrace, 10] := by
    rw [generateFullScanJson, hs₁, hs₂, hs₃, hs₄, hs₅]
  have hfree₁ : ∀ k ∈ sectionNames, bytes "containers" ≠ k → KeyFree k s₁ := fun k hk hne =>
    hs₁ ▸ keyFree_section (fun c _ => legibleFields_container c) hasFieldKeys_container hk
      (by decide) hne false
  have hfree₂ : ∀ k ∈ sectionNames, bytes "compose_files" ≠ k → KeyFree k s₂ := fun k hk hne =>
    hs₂ ▸ keyFree_section hcompose hasFieldKeys_composeFile hk (by decide) hne false
  have hfree₃ : ∀ k ∈ sectionNames, bytes "images" ≠ k → KeyFree k s₃ := fun k hk hne =>
    hs₃ ▸ keyFree_section (fun c _ => legibleFields_image c) hasFieldKeys_image hk
      (by decide) hne false
  have hfree₄ : ∀ k ∈ sectionNames, bytes "networks" ≠ k → KeyFree k s₄ := fun k hk hne =>
    hs₄ ▸ keyFree_section (fun c _ => legibleFields_network c) hasFieldKeys_network hk
      (by decide) hne false
  have hheader : ∀ k ∈ sectionNames, KeyFree k (renderHeader timestamp serverLabel) :=
    fun k hk => keyFree_header hk timestamp serverLabel
  intro payload
  refine ⟨?_, ?_, ?_, ?_, ?_⟩
  · have hsplit : payload = renderHeader timestamp serverLabel ++ s₁ ++
        (s₂ ++ s₃ ++ s₄ ++ s₅ ++ [closeBrace, 10]) := by
      rw [show payload = _ from hpayload]
      simp only [List.append_assoc]
    rw [hsplit, ← hs₁]
    exact decodeSection_records (hheader _ (by decide)) false _
      (hbalanced _ (by simp [sections]) (hlegible fun c _ => legibleFields_container c))
      (fun c _ => decodeContainer_fields c) fun c hc => escapeJson_ne_nil (hkeys.containers c hc)
  · have hsplit : payload = (renderHeader timestamp serverLabel ++ s₁) ++ s₂ ++
        (s₃ ++ s₄ ++ s₅ ++ [closeBrace, 10]) := by
      rw [show payload = _ from hpayload]
      simp only [List.append_assoc]
    rw [hsplit, ← hs₂]
    refine decodeSection_records
      ((hheader _ (by decide)).append (hfree₁ _ (by decide) (by decide))) false _
      (hbalanced _ (by simp [sections]) (hlegible hcompose)) ?_
      fun cf hcf => escapeJson_ne_nil (hkeys.composeFiles cf hcf)
    intro cf hcf
    obtain ⟨names, hservices, hnames⟩ := h.services cf hcf
    exact decodeComposeFile_fields hservices hnames
  · exact decodeImages_generated (fun cf hcf => (h.services cf hcf).imp fun _ hn => hn.1)
      (hbalanced _ (by simp [sections]) (hlegible fun c _ => legibleFields_image c)) hkeys.images
      timestamp serverLabel
  · have hsplit : payload = (renderHeader timestamp serverLabel ++ s₁ ++ s₂ ++ s₃) ++ s₄ ++
        (s₅ ++ [closeBrace, 10]) := by
      rw [show payload = _ from hpayload]
      simp only [List.append_assoc]
    rw [hsplit, ← hs₄]
    exact decodeSection_records
      ((((hheader _ (by decide)).append (hfree₁ _ (by decide) (by decide))).append
        (hfree₂ _ (by decide) (by decide))).append (hfree₃ _ (by decide) (by decide))) false _
      (hbalanced _ (by simp [sections]) (hlegible fun c _ => legibleFields_network c))
      (fun net _ => decodeNetwork_fields net)
      fun net hn => escapeJson_ne_nil (hkeys.networks net hn)
  · rw [show payload = _ from hpayload, ← hs₅]
    exact decodeSection_records
      (((((hheader _ (by decide)).append (hfree₁ _ (by decide) (by decide))).append
        (hfree₂ _ (by decide) (by decide))).append (hfree₃ _ (by decide) (by decide))).append
        (hfree₄ _ (by decide) (by decide))) true _
      (hbalanced _ (by simp [sections]) (hlegible fun c _ => legibleFields_volume c))
      (fun vol _ => decodeVolume_fields vol)
      fun vol hv => escapeJson_ne_nil (hkeys.volumes vol hv)

/-- A list of records arrives unchanged exactly when each of them does. -/
theorem map_arrived_eq_iff {σ τ : Type} {arrived scanned : τ → σ} {plain : τ → Prop}
    (h : ∀ x, arrived x = scanned x ↔ plain x) (xs : List τ) :
    xs.map arrived = xs.map scanned ↔ ∀ x ∈ xs, plain x := by
  rw [List.map_inj_left]
  exact forall₂_congr fun x _ => h x

/-- A delimited scan with keys comes back exactly when all its values are plain: no
string holds a quote, a backslash, a control byte or a byte from 0x80 on, and no
number is negative. -/
theorem roundTrips_iff (timestamp : Int) (serverLabel : Bytes) (scan : Scan)
    (hkeys : HasKeys scan) (hdel : Delimited scan) :
    RoundTrips timestamp serverLabel scan ↔
      ∀ objects ∈ sections scan, ∀ o ∈ objects, ∀ f ∈ o, PlainValue f.2 := by
  obtain ⟨h₁, h₂, h₃, h₄, h₅⟩ := generate_received hdel hkeys timestamp serverLabel
  have hplain : (∀ objects ∈ sections scan, ∀ o ∈ objects, ∀ f ∈ o, PlainValue f.2) ↔
      (∀ c ∈ scan.containers, ∀ f ∈ c.fields, PlainValue f.2) ∧
      (∀ cf ∈ scan.composeFiles, ∀ f ∈ cf.fields, PlainValue f.2) ∧
      (∀ img ∈ scan.images, ∀ f ∈ img.fields, PlainValue f.2) ∧
      (∀ net ∈ scan.networks, ∀ f ∈ net.fields, PlainValue f.2) ∧
      ∀ vol ∈ scan.volumes, ∀ f ∈ vol.fields, PlainValue f.2 := by
    simp only [sections, List.forall_mem_cons, List.forall_mem_map, List.not_mem_nil,
      IsEmpty.forall_iff, implies_true, and_true]
  rw [hplain, ← map_arrived_eq_iff receivedContainer_eq_iff,
    ← map_arrived_eq_iff receivedComposeFile_eq_iff, ← map_arrived_eq_iff receivedImage_eq_iff,
    ← map_arrived_eq_iff receivedNetwork_eq_iff, ← map_arrived_eq_iff receivedVolume_eq_iff,
    ← h₁, ← h₂, ← h₃, ← h₄, ← h₅]
  exact ⟨fun h => ⟨h.containers, h.composeFiles, h.images, h.networks, h.volumes⟩,
    fun ⟨ha, hb, hc, hd, he⟩ => ⟨ha, hb, hc, hd, he⟩⟩

/-- A scan of one container with the given name. -/
def oneContainerScan (name : Bytes) : Scan where
  containers := [
    { id := bytes "c1", name := name, image := bytes "plex", state := bytes "running"
      status := [], created := 0, serviceName := [], healthStatus := [], restartPolicy := [] }]
  composeFiles := []
  images := []
  networks := []
  volumes := []

theorem hasKeys_oneContainerScan (name : Bytes) : HasKeys (oneContainerScan name) where
  containers := by simp +decide [oneContainerScan]
  composeFiles := nofun
  images := nofun
  networks := nofun
  volumes := nofun

theorem roundTrips_iff_oneContainerScan :
    RoundTrips 0 [] (oneContainerScan (bytes "web[1]")) ↔
      ∀ objects ∈ sections (oneContainerScan (bytes "web[1]")), ∀ o ∈ objects, ∀ f ∈ o,
        PlainValue f.2 :=
  roundTrips_iff 0 [] (oneContainerScan (bytes "web[1]")) (hasKeys_oneContainerScan _)
    { brackets := by decide, braces := by decide, services := nofun }

/-- A quote in a name comes back escaped, and a lone bracket loses every container. -/
theorem names_do_not_round_trip :
    HasKeys (oneContainerScan (bytes "a\"b")) ∧ ¬ RoundTrips 0 [] (oneContainerScan (bytes "a\"b")) ∧
      HasKeys (oneContainerScan (bytes "web[1")) ∧
      decodeContainers (generateFullScanJson 0 [] (oneContainerScan (bytes "web[1"))) = [] ∧
      ¬ RoundTrips 0 [] (oneContainerScan (bytes "web[1")) := by
  have hquote : decodeContainers (generateFullScanJson 0 [] (oneContainerScan (bytes "a\"b"))) ≠
      (oneContainerScan (bytes "a\"b")).containers.map scannedContainer := by decide +kernel
  have hbracket : decodeContainers (generateFullScanJson 0 []
      (oneContainerScan (bytes "web[1"))) = [] := by decide +kernel
  refine ⟨hasKeys_oneContainerScan _, fun h => hquote h.containers, hasKeys_oneContainerScan _,
    hbracket, fun h => ?_⟩
  have hlost := h.containers
  rw [hbracket] at hlost
  cases hlost

end Nazg.Docker

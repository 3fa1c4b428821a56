import Nazg.Agent.Images
import Nazg.Proofs.ScanCodec
import Nazg.Proofs.ScanStore

/-!
# The identity of an image

`docker images --no-trunc` prints ids with their algorithm in front, and the agent takes the
first twelve bytes of that: `sha256:` and five digits. Both stores keep one row for what is
left of an id, so of the lines that agree on the five digits the last one is all that
remains: the images of the others and their tags are lost.
-/

namespace Nazg.Docker

open Lib Lib.Sqlite Nexus
open Agent (DockerImageInfo ImageHost listImages imageOfLine Scan generateFullScanJson
  servicesArray CachedImageRow cachedImageRow cachedImageKey storeImages getCachedImages)

/-! ## What docker prints -/

def isLowerHex (c : UInt8) : Bool := (48 ≤ c && c ≤ 57) || (97 ≤ c && c ≤ 102)

/-- The bytes of the name of a repository, of a tag, and of `<none>`. -/
def isReferenceByte (c : UInt8) : Bool :=
  isDigit c || (65 ≤ c && c ≤ 90) || (97 ≤ c && c ≤ 122) || c = 95 || c = 45 || c = 46 || c = 47 ||
    c = 58 || c = 60 || c = 62 || c = openBracket || c = closeBracket

/-- Of the columns for people only that they hold no separator. -/
def isColumnByte (c : UInt8) : Bool := c ≠ 0 && c ≠ 10 && c ≠ 124

/-- A line of `docker images --no-trunc`. Brackets stand around a numeric address of a
registry. -/
structure ImageLine where
  digest : Bytes
  repository : Bytes
  tag : Bytes
  size : Bytes
  createdAt : Bytes
  digest_length : digest.length = 64
  digest_hex : ∀ c ∈ digest, isLowerHex c = true
  repository_bytes : ∀ c ∈ repository, isReferenceByte c = true
  repository_brackets : depthIn openBracket closeBracket 1 repository = some 1
  tag_bytes : ∀ c ∈ tag, isReferenceByte c = true
  tag_brackets : openBracket ∉ tag ∧ closeBracket ∉ tag
  size_bytes : ∀ c ∈ size, isColumnByte c = true
  createdAt_bytes : ∀ c ∈ createdAt, isColumnByte c = true
  createdAt_ne : createdAt ≠ []

namespace ImageLine

def text (l : ImageLine) : Bytes :=
  bytes "sha256:" ++ l.digest ++ 124 :: (l.repository ++ 124 :: (l.tag ++ 124 :: (l.size ++
    124 :: l.createdAt)))

/-- The digits that are left of the id. -/
def short (l : ImageLine) : Bytes := l.digest.take 5

end ImageLine

def printed (lines : List ImageLine) : Bytes := lines.flatMap fun l => l.text ++ [10]

/-! ## What the agent reads of it -/

section

variable (l : ImageLine)

theorem isColumnByte_of_reference {c : UInt8} (h : isReferenceByte c = true) :
    isColumnByte c = true := by
  revert h
  exact forall_byte (p := fun c => isReferenceByte c = true → isColumnByte c = true)
    (by decide +kernel) c

theorem isReferenceByte_of_hex {c : UInt8} (h : isLowerHex c = true) :
    isReferenceByte c = true := by
  revert h
  exact forall_byte (p := fun c => isLowerHex c = true → isReferenceByte c = true)
    (by decide +kernel) c

theorem id_bytes : ∀ c ∈ bytes "sha256:" ++ l.digest, isReferenceByte c = true := by
  intro c hc
  rcases List.mem_append.1 hc with hc | hc
  · revert hc
    exact forall_byte (p := fun c => c ∈ bytes "sha256:" → isReferenceByte c = true)
      (by decide +kernel) c
  · exact isReferenceByte_of_hex (l.digest_hex c hc)

theorem notMem_of_column {s : Bytes} (h : ∀ c ∈ s, isColumnByte c = true) :
    (0 : UInt8) ∉ s ∧ (10 : UInt8) ∉ s ∧ (124 : UInt8) ∉ s :=
  ⟨fun hc => absurd (h _ hc) (by decide), fun hc => absurd (h _ hc) (by decide),
    fun hc => absurd (h _ hc) (by decide)⟩

theorem getFields_text : getFields 124 l.text =
    [bytes "sha256:" ++ l.digest, l.repository, l.tag, l.size, l.createdAt] := by
  have hcolumn : ∀ {s : Bytes}, (∀ c ∈ s, isReferenceByte c = true) → (124 : UInt8) ∉ s :=
    fun h => (notMem_of_column fun c hc => isColumnByte_of_reference (h c hc)).2.2
  rw [ImageLine.text, getFields_append_delim (hcolumn (id_bytes l)),
    getFields_append_delim (hcolumn l.repository_bytes),
    getFields_append_delim (hcolumn l.tag_bytes),
    getFields_append_delim (notMem_of_column l.size_bytes).2.2,
    getFields_of_notMem (notMem_of_column l.createdAt_bytes).2.2 l.createdAt_ne]

/-- The record of a line. -/
theorem imageOfLine_text (host : ImageHost) (i : Nat) : imageOfLine host i l.text =
    { id := bytes "sha256:" ++ l.short, repository := l.repository, tag := l.tag, sizeBytes := 0
      created := host.now i } := by
  have htake : (bytes "sha256:" ++ l.digest).take 12 = bytes "sha256:" ++ l.short := rfl
  simp only [imageOfLine, getFields_text, List.getD_cons_zero, List.getD_cons_succ, htake,
    List.length_cons, List.length_nil]
  rfl

theorem mem_text {c : UInt8} (h : c ∈ l.text) : isColumnByte c = true ∨ c = 124 := by
  have hreference : ∀ {s : Bytes}, (∀ c ∈ s, isReferenceByte c = true) → c ∈ s →
      isColumnByte c = true ∨ c = 124 := fun hs hc => .inl (isColumnByte_of_reference (hs c hc))
  rcases List.mem_append.1 h with h | h
  · exact hreference (id_bytes l) h
  · simp only [List.mem_cons, List.mem_append] at h
    rcases h with h | h | h | h | h | h | h | h
    · exact .inr h
    · exact hreference l.repository_bytes h
    · exact .inr h
    · exact hreference l.tag_bytes h
    · exact .inr h
    · exact .inl (l.size_bytes c h)
    · exact .inr h
    · exact .inl (l.createdAt_bytes c h)

theorem notMem_text : (0 : UInt8) ∉ l.text ∧ (10 : UInt8) ∉ l.text :=
  ⟨fun h => absurd (mem_text l h) (by decide), fun h => absurd (mem_text l h) (by decide)⟩

end

theorem getFields_printed (lines : List ImageLine) :
    getFields 10 (printed lines) = lines.map ImageLine.text := by
  induction lines with
  | nil => rfl
  | cons l lines ih =>
      rw [printed, List.flatMap_cons, List.append_assoc, List.singleton_append,
        getFields_append_delim (notMem_text l).2, ← printed, ih]
      rfl

theorem readPipe_printed (lines : List ImageLine) :
    readPipe 256 (printed lines) = printed lines := by
  refine (readPipe_eq_self (by decide)).2 fun h => ?_
  obtain ⟨l, -, hl⟩ := List.mem_flatMap.1 h
  rcases List.mem_append.1 hl with hl | hl
  · exact (notMem_text l).1 hl
  · exact absurd hl (by decide)

/-- The record that the agent makes of a line. -/
def imageRecord (host : ImageHost) (i : Nat) (l : ImageLine) : DockerImageInfo where
  id := bytes "sha256:" ++ l.short
  repository := l.repository
  tag := l.tag
  sizeBytes := 0
  created := host.now i

theorem listImages_printed (host : ImageHost) (lines : List ImageLine) :
    listImages host (printed lines) = lines.mapIdx (imageRecord host) := by
  have htext : ∀ l : ImageLine, l.text ≠ [] := fun l h => by
    have hlen := congrArg List.length h
    simp [ImageLine.text] at hlen
  have hfilter : ((lines.map ImageLine.text).filter (· ≠ [])) = lines.map ImageLine.text := by
    refine List.filter_eq_self.2 fun s hs => ?_
    obtain ⟨l, -, rfl⟩ := List.mem_map.1 hs
    exact decide_eq_true (htext l)
  rw [listImages, readPipe_printed, getFields_printed, hfilter]
  refine List.ext_getElem? fun i => ?_
  rw [List.getElem?_mapIdx, List.getElem?_map, List.getElem?_mapIdx, Option.map_map]
  exact congrArg (Option.map · _) (funext fun l => imageOfLine_text l host i)

/-! ## What arrives of it -/

/-- An image as both stores know it: the key, and the pair of repository and tag. -/
abbrev ImageView := Text × Bytes × Bytes

def rowView (r : DockerImageRow) : ImageView :=
  (r.imageId, textColumn r.repository, textColumn r.tag)

def lineView (l : ImageLine) : ImageView :=
  (.ofCStr (bytes "sha256:" ++ l.short), l.repository, l.tag)

theorem short_bytes (l : ImageLine) :
    ∀ c ∈ bytes "sha256:" ++ l.short, isReferenceByte c = true := by
  intro c hc
  refine id_bytes l c ?_
  rcases List.mem_append.1 hc with hc | hc
  · exact List.mem_append_left _ hc
  · exact List.mem_append_right _ (List.mem_of_mem_take hc)

theorem plain_of_reference {s : Bytes} (h : ∀ c ∈ s, isReferenceByte c = true) : Plain s := by
  intro c hc
  have hbyte := h c hc
  revert hbyte
  exact forall_byte (p := fun c => isReferenceByte c = true → isPlainByte c = true)
    (by decide +kernel) c

theorem cstr_of_reference {s : Bytes} (h : ∀ c ∈ s, isReferenceByte c = true) : cstr s = s :=
  cstr_eq_self.2 fun hc => absurd (h 0 hc) (by decide)

theorem lineView_fst_inj {l l' : ImageLine} :
    (lineView l).1 = (lineView l').1 ↔ l.short = l'.short := by
  rw [lineView, lineView, Text.ext_iff, Text.ofCStr_bytes, Text.ofCStr_bytes,
    cstr_of_reference (short_bytes l), cstr_of_reference (short_bytes l'),
    List.append_cancel_left_eq]

theorem depthIn_short (l : ImageLine) :
    depthIn openBracket closeBracket 1 (bytes "sha256:" ++ l.short) = some 1 := by
  have hno : ∀ c ∈ bytes "sha256:" ++ l.short, c ≠ openBracket ∧ c ≠ closeBracket := by
    intro c hc
    rcases List.mem_append.1 hc with hc | hc
    · revert hc
      exact forall_byte (p := fun c => c ∈ bytes "sha256:" → c ≠ openBracket ∧ c ≠ closeBracket)
        (by decide +kernel) c
    · have hhex := l.digest_hex c (List.mem_of_mem_take hc)
      revert hhex
      exact forall_byte (p := fun c => isLowerHex c = true → c ≠ openBracket ∧ c ≠ closeBracket)
        (by decide +kernel) c
  exact depthIn_of_notMem (by decide) (fun h => (hno _ h).1 rfl) fun h => (hno _ h).2 rfl

theorem depthIn_flatMap {α : Type*} {f : α → Bytes} {os : List α}
    (h : ∀ o ∈ os, depthIn openBracket closeBracket 1 (f o) = some 1) :
    depthIn openBracket closeBracket 1 (os.flatMap f) = some 1 := by
  induction os with
  | nil => rfl
  | cons o os ih =>
      rw [List.flatMap_cons, depthIn_append, h o List.mem_cons_self]
      exact ih fun o' ho' => h o' (List.mem_cons_of_mem _ ho')

theorem balanced_records (host : ImageHost) (lines : List ImageLine) :
    Balanced ((lines.mapIdx (imageRecord host)).map (·.fields)) := by
  have hrecord : ∀ o ∈ (lines.mapIdx (imageRecord host)).map (·.fields), ∃ i l,
      o = (imageRecord host i l).fields := by
    intro o ho
    obtain ⟨img, himg, rfl⟩ := List.mem_map.1 ho
    obtain ⟨i, hi, rfl⟩ := List.mem_mapIdx.1 himg
    exact ⟨i, lines[i], rfl⟩
  have hcontents : ∀ i l, contents (imageRecord host i l).fields =
      (bytes "sha256:" ++ l.short) ++ (l.repository ++ l.tag) := by
    intro i l
    simp [contents, content, DockerImageInfo.fields, imageRecord]
  refine ⟨fun o ho => ?_, depthIn_flatMap fun o ho => ?_, fun o ho => ?_⟩
  · obtain ⟨i, l, rfl⟩ := hrecord o ho
    exact legibleFields_image _
  · obtain ⟨i, l, rfl⟩ := hrecord o ho
    rw [hcontents, depthIn_append, depthIn_short, Option.bind_some, depthIn_append,
      l.repository_brackets, Option.bind_some]
    exact depthIn_of_notMem (by decide) l.tag_brackets.1 l.tag_brackets.2
  · obtain ⟨i, l, rfl⟩ := hrecord o ho
    have hbytes : ∀ c ∈ contents (imageRecord host i l).fields, isReferenceByte c = true := by
      rw [hcontents]
      simp only [List.mem_append]
      rintro c (hc | hc | hc)
      · exact short_bytes l c (List.mem_append.2 hc)
      · exact l.repository_bytes c hc
      · exact l.tag_bytes c hc
    exact depthIn_of_notMem (by decide) (fun h => absurd (hbytes _ h) (by decide))
      fun h => absurd (hbytes _ h) (by decide)

/-- What is decoded, as far as the stores tell images apart. -/
theorem map_view_decodeImages {scan : Scan} {host : ImageHost} {lines : List ImageLine}
    (hscan : scan.images = listImages host (printed lines))
    (hservices : ∀ cf ∈ scan.composeFiles, ∃ names, cf.servicesJson = servicesArray names)
    (timestamp : Int) (serverLabel : Bytes) :
    (decodeImages (generateFullScanJson timestamp serverLabel scan)).map
        (fun x => ((Text.ofCStr x.id, cstr x.repository, cstr x.tag) : ImageView)) =
      lines.map lineView := by
  have himages : scan.images = lines.mapIdx (imageRecord host) :=
    hscan.trans (listImages_printed host lines)
  rw [decodeImages_generated hservices (himages ▸ balanced_records host lines), himages,
    List.map_map]
  · refine List.ext_getElem? fun i => ?_
    rw [List.getElem?_map, List.getElem?_mapIdx, List.getElem?_map, Option.map_map]
    refine congrArg (Option.map · _) (funext fun l => ?_)
    simp only [Function.comp, receivedImage, imageRecord, lineView,
      escapeJson_eq_self.2 (plain_of_reference (short_bytes l)),
      escapeJson_eq_self.2 (plain_of_reference l.repository_bytes),
      escapeJson_eq_self.2 (plain_of_reference l.tag_bytes), cstr_of_reference l.repository_bytes,
      cstr_of_reference l.tag_bytes]
  · rw [himages]
    intro img himg
    obtain ⟨i, hi, rfl⟩ := List.mem_mapIdx.1 himg
    exact List.append_ne_nil_of_left_ne_nil (by decide) _

/-! ## What is stored of it -/

/-- The last of those with its key. -/
def LastOf {κ β : Type} (v : κ × β) (vs : List (κ × β)) : Prop :=
  ∃ before after, vs = before ++ v :: after ∧ ∀ w ∈ after, w.1 ≠ v.1

theorem lastOf_cons {κ β : Type} {v w : κ × β} {vs : List (κ × β)} :
    LastOf v (w :: vs) ↔ (w = v ∧ ∀ x ∈ vs, x.1 ≠ v.1) ∨ LastOf v vs := by
  constructor
  · rintro ⟨before, after, heq, hlast⟩
    cases before with
    | nil =>
        obtain ⟨rfl, rfl⟩ := List.cons.inj heq
        exact .inl ⟨rfl, hlast⟩
    | cons u before =>
        obtain ⟨rfl, rfl⟩ := List.cons.inj heq
        exact .inr ⟨before, after, rfl, hlast⟩
  · rintro (⟨rfl, hlast⟩ | ⟨before, after, rfl, hlast⟩)
    · exact ⟨[], vs, rfl, hlast⟩
    · exact ⟨w :: before, after, rfl, hlast⟩

section

variable {σ ρ β : Type} {T : DockerTable ρ} {serverId : Int}

/-- What the rows show after an import: the last record of each key, and of the rows before
those whose key no record has. -/
theorem importAll_shows (clock : Nat → Int) (row : Int → σ → ρ) (count : ScanResult → ScanResult)
    (V : ρ → Text × β) (W : σ → Text × β) (hserver : ∀ now x, T.serverId (row now x) = serverId)
    (hrefs : ∀ db now x, T.references db (row now x) = true) (hkey : ∀ r, (V r).1 = T.uniqueId r)
    (hrow : ∀ now x, V (row now x) = W x)
    (hupdate : ∀ r old, T.clash r old = true → V (T.update r old) = V r) (v : Text × β)
    (xs : List σ) (s : Import) (hs : serverId ∈ s.db.servers) :
    (∃ r ∈ (T.get (importAll T clock row count xs s).db).data, T.serverId r = serverId ∧ V r = v) ↔
      LastOf v (xs.map W) ∨ ∃ r ∈ (T.get s.db).data, (T.serverId r = serverId ∧ V r = v) ∧
        ∀ x ∈ xs, (W x).1 ≠ v.1 := by
  induction xs generalizing s with
  | nil => simp [importAll, LastOf]
  | cons x xs ih =>
      have hacc : T.accepts (row (clock s.reads) x) s.db = true :=
        T.accepts_iff.2 (.inr ⟨by rw [hserver]; exact hs, hrefs _ _ _⟩)
      have hs' : serverId ∈ (s.store clock (fun now => T.upsert (row now x)) count).db.servers := by
        rw [Import.store, T.upsert_servers]
        exact hs
      have hrun := ih _ hs'
      have hstep := T.exists_upsert_iff (p := fun r => (T.serverId r = serverId ∧ V r = v) ∧
        ∀ x ∈ xs, (W x).1 ≠ v.1) hacc fun old hclash => by
          rw [T.serverId_update, hupdate _ old hclash, hserver, (T.clash_iff.1 hclash).1, hserver]
      have hclash : ∀ r, T.serverId r = serverId → V r = v →
          (T.clash (row (clock s.reads) x) r = false ↔ (W x).1 ≠ v.1) := by
        intro r hr hv
        rw [Bool.eq_false_iff, Ne, T.clash_iff, hserver, ← hkey, ← hkey, hrow, hv,
          eq_comm (a := v.1)]
        exact not_congr ⟨And.right, fun h => ⟨hr, h⟩⟩
      refine hrun.trans ?_
      rw [Import.store, hstep, List.map_cons, lastOf_cons, hserver, hrow, List.forall_mem_map]
      constructor
      · rintro (hlast | ⟨⟨-, hw⟩, hnone⟩ | ⟨r, hr, hfree, hshows, hnone⟩)
        · exact .inl (.inr hlast)
        · exact .inl (.inl ⟨hw, hnone⟩)
        · exact .inr ⟨r, hr, hshows, List.forall_mem_cons.2
            ⟨(hclash r hshows.1 hshows.2).1 hfree, hnone⟩⟩
      · rintro ((⟨hw, hnone⟩ | hlast) | ⟨r, hr, hshows, hnone⟩)
        · exact .inr (.inl ⟨⟨rfl, hw⟩, hnone⟩)
        · exact .inl hlast
        · obtain ⟨hx, hnone⟩ := List.forall_mem_cons.1 hnone
          exact .inr (.inr ⟨r, hr, (hclash r hshows.1 hshows.2).2 hx, hshows, hnone⟩)

end

/-- The rows of the server after a scan was sent and imported. -/
theorem imported_shows {scan : Scan} {host : ImageHost} {lines : List ImageLine} {serverId : Int}
    {db : Db} (hscan : scan.images = listImages host (printed lines))
    (hservices : ∀ cf ∈ scan.composeFiles, ∃ names, cf.servicesJson = servicesArray names)
    (hs : serverId ∈ db.servers) (clock : Nat → Int) (timestamp : Int) (serverLabel : Bytes)
    (v : ImageView) :
    (∃ r ∈ (parseAndStoreScan clock serverId (generateFullScanJson timestamp serverLabel scan)
      .init db).2.2.dockerImages.data, r.serverId = serverId ∧ rowView r = v) ↔
      LastOf v (lines.map lineView) ∨ ∃ r ∈ db.dockerImages.data,
        (r.serverId = serverId ∧ rowView r = v) ∧ ∀ l ∈ lines, (lineView l).1 ≠ v.1 := by
  have hservers : serverId ∈ ((⟨.init, db, 0⟩ : Import).containers clock serverId
      (generateFullScanJson timestamp serverLabel scan)).db.servers := by
    rw [containers_frame clock serverId _ Db.servers _ fun _ _ => rfl]
    exact hs
  generalize hpayload : generateFullScanJson timestamp serverLabel scan = payload at hservers
  have hafter : (parseAndStoreScan clock serverId payload .init db).2.2.dockerImages =
      (((⟨.init, db, 0⟩ : Import).containers clock serverId payload).images clock serverId
        payload).db.dockerImages := by
    show (imported clock serverId payload db).db.dockerImages = _
    rw [imported, volumes_frame clock serverId payload Db.dockerImages _ fun _ _ => rfl,
      networks_frame clock serverId payload Db.dockerImages _ fun _ _ => rfl,
      composeFiles_frame clock serverId payload Db.dockerImages _ fun _ _ => rfl]
  have hbefore : ((⟨.init, db, 0⟩ : Import).containers clock serverId payload).db.dockerImages =
      db.dockerImages := containers_frame clock serverId payload Db.dockerImages _ fun _ _ => rfl
  have hviews := map_view_decodeImages hscan hservices timestamp serverLabel
  rw [hpayload] at hviews
  have hkey : ∀ r old, dockerImagesTable.clash r old = true →
      rowView (dockerImagesTable.update r old) = rowView r := by
    intro r old hclash
    exact Prod.ext (dockerImagesTable.clash_iff.1 hclash).2 rfl
  have hshows := importAll_shows clock
    (fun now (c : ScannedImage) =>
      dockerImageRow now serverId c.id c.repository c.tag c.sizeBytes c.created)
    (fun r => { r with imagesCount := r.imagesCount + 1 }) rowView
    (fun x => (Text.ofCStr x.id, cstr x.repository, cstr x.tag))
    (fun _ _ => rfl) (fun _ _ _ => rfl) (fun _ => rfl) (fun _ _ => rfl) hkey v
    (decodeImages payload) _ hservers
  have hids : (∀ x ∈ decodeImages payload, Text.ofCStr x.id ≠ v.1) ↔
      ∀ l ∈ lines, (lineView l).1 ≠ v.1 := by
    have hall : ∀ ws : List ImageView, (∀ w ∈ ws, w.1 ≠ v.1) ↔ ∀ u ∈ ws.map Prod.fst, u ≠ v.1 := by
      simp
    have hmap := hall (lines.map lineView)
    rw [← hviews, List.forall_mem_map, ← hall, hviews, List.forall_mem_map] at hmap
    exact hmap
  rw [hafter, ← hids, ← hviews]
  refine hshows.trans ?_
  rw [show dockerImagesTable.get _ = _ from hbefore]
  rfl

/-! ## No image is lost -/

/-- Every line leads to a row, lines with different ids to no common one, and the pair of every
line is shown. -/
structure Keeps (shown : ImageView → Prop) (lines : List ImageLine) : Prop where
  stored : ∀ l ∈ lines, ∃ v, shown v ∧ v.1 = (lineView l).1
  apart : ∀ l ∈ lines, ∀ l' ∈ lines, l.digest ≠ l'.digest →
    ¬ ∃ v, shown v ∧ v.1 = (lineView l).1 ∧ v.1 = (lineView l').1
  retrievable : ∀ l ∈ lines, ∃ v, shown v ∧ v.2 = (l.repository, l.tag)

/-- Different ids differ in their first five digits, and each pair is that of the last line
with these digits, or it was stored before, under digits that no line has. -/
structure KeptApart (before : ImageView → Prop) (lines : List ImageLine) : Prop where
  digits : ∀ l ∈ lines, ∀ l' ∈ lines, l.digest ≠ l'.digest → l.short ≠ l'.short
  pairs : ∀ l ∈ lines,
    (∃ above l' below, lines = above ++ l' :: below ∧ (∀ x ∈ below, x.short ≠ l'.short) ∧
      l'.repository = l.repository ∧ l'.tag = l.tag) ∨
    ∃ v, before v ∧ v.2 = (l.repository, l.tag) ∧ ∀ x ∈ lines, (lineView x).1 ≠ v.1

theorem lastOf_map {σ κ β : Type} {f : σ → κ × β} {xs : List σ} {v : κ × β} :
    LastOf v (xs.map f) ↔ ∃ above x below, xs = above ++ x :: below ∧
      (∀ y ∈ below, (f y).1 ≠ (f x).1) ∧ f x = v := by
  constructor
  · rintro ⟨before, after, heq, hlast⟩
    obtain ⟨above, rest, rfl, -, hrest⟩ := List.map_eq_append_iff.1 heq
    obtain ⟨x, below, rfl, rfl, rfl⟩ := List.map_eq_cons_iff.1 hrest
    exact ⟨above, x, below, rfl, fun y hy => hlast _ (List.mem_map_of_mem hy), rfl⟩
  · rintro ⟨above, x, below, rfl, hlast, rfl⟩
    refine ⟨above.map f, below.map f, by simp, fun w hw => ?_⟩
    obtain ⟨y, hy, rfl⟩ := List.mem_map.1 hw
    exact hlast y hy

theorem lastOf_lines {lines : List ImageLine} {v : ImageView} :
    LastOf v (lines.map lineView) ↔ ∃ above l below, lines = above ++ l :: below ∧
      (∀ x ∈ below, x.short ≠ l.short) ∧ lineView l = v := by
  simp only [lastOf_map, Ne, lineView_fst_inj]

theorem exists_lastOf {κ β : Type} {k : κ} {vs : List (κ × β)} (h : ∃ w ∈ vs, w.1 = k) :
    ∃ v, LastOf v vs ∧ v.1 = k := by
  induction vs with
  | nil => simp at h
  | cons u vs ih =>
      by_cases hmem : ∃ w ∈ vs, w.1 = k
      · obtain ⟨v, hv, hkey⟩ := ih hmem
        exact ⟨v, lastOf_cons.2 (.inr hv), hkey⟩
      · obtain ⟨w, hw, rfl⟩ := h
        rcases List.mem_cons.1 hw with rfl | hw
        · exact ⟨w, lastOf_cons.2 (.inl ⟨rfl, fun x hx hkey => hmem ⟨x, hx, hkey⟩⟩), rfl⟩
        · exact absurd ⟨w, hw, rfl⟩ hmem

theorem keeps_iff {before shown : ImageView → Prop} {lines : List ImageLine}
    (h : ∀ v, shown v ↔ LastOf v (lines.map lineView) ∨
      before v ∧ ∀ l ∈ lines, (lineView l).1 ≠ v.1) :
    Keeps shown lines ↔ KeptApart before lines := by
  have hstored : ∀ l ∈ lines, ∃ v, shown v ∧ v.1 = (lineView l).1 := by
    intro l hl
    obtain ⟨v, hv, hkey⟩ := exists_lastOf ⟨_, List.mem_map_of_mem hl, rfl⟩
    exact ⟨v, (h v).2 (.inl hv), hkey⟩
  constructor
  · intro hkeeps
    refine ⟨fun l hl l' hl' hne hshort => ?_, fun l hl => ?_⟩
    · obtain ⟨v, hv, hkey⟩ := hstored l hl
      exact hkeeps.apart l hl l' hl' hne ⟨v, hv, hkey, hkey.trans (lineView_fst_inj.2 hshort)⟩
    · obtain ⟨v, hv, hpair⟩ := hkeeps.retrievable l hl
      rcases (h v).1 hv with hlast | ⟨hbefore, hnone⟩
      · obtain ⟨above, l', below, heq, hbelow, rfl⟩ := lastOf_lines.1 hlast
        obtain ⟨hrepository, htag⟩ := Prod.mk.inj hpair
        exact .inl ⟨above, l', below, heq, hbelow, hrepository, htag⟩
      · exact .inr ⟨v, hbefore, hpair, hnone⟩
  · intro happart
    refine ⟨hstored, fun l hl l' hl' hne => ?_, fun l hl => ?_⟩
    · rintro ⟨v, -, hkey, hkey'⟩
      exact happart.digits l hl l' hl' hne (lineView_fst_inj.1 (hkey.symm.trans hkey'))
    · rcases happart.pairs l hl with ⟨above, l', below, heq, hbelow, hrepository, htag⟩ |
        ⟨v, hbefore, hpair, hnone⟩
      · have hlast := lastOf_lines.2 ⟨above, l', below, heq, hbelow, rfl⟩
        refine ⟨lineView l', (h _).2 (.inl hlast), ?_⟩
        exact Prod.ext hrepository htag
      · exact ⟨v, (h v).2 (.inr ⟨hbefore, hnone⟩), hpair⟩

/-! ## The two stores -/

/-- A listing of the store shows the image. -/
def Shown (serverId : Int) (db : Db) (v : ImageView) : Prop :=
  ∃ e ∈ listDockerImages serverId db, e.find? (bytes "server_id") = some (decimal serverId) ∧
    e.find? (bytes "image_id") = some v.1.bytes ∧ e.find? (bytes "repository") = some v.2.1 ∧
    e.find? (bytes "tag") = some v.2.2

theorem shown_iff {serverId : Int} {db : Db} {v : ImageView} : Shown serverId db v ↔
    ∃ r ∈ db.dockerImages.data, r.serverId = serverId ∧ rowView r = v := by
  have hentry : ∀ x : Int × DockerImageRow,
      ((dockerImageEntry x.1 x.2).find? (bytes "server_id") = some (decimal serverId) ∧
        (dockerImageEntry x.1 x.2).find? (bytes "image_id") = some v.1.bytes ∧
        (dockerImageEntry x.1 x.2).find? (bytes "repository") = some v.2.1 ∧
        (dockerImageEntry x.1 x.2).find? (bytes "tag") = some v.2.2) ↔
      dockerImagesTable.serverId x.2 = serverId ∧ rowView x.2 = v := by
    intro x
    have hview : rowView x.2 = v ↔ x.2.imageId.bytes = v.1.bytes ∧
        textColumn x.2.repository = v.2.1 ∧ textColumn x.2.tag = v.2.2 := by
      rw [rowView, Prod.ext_iff, Prod.ext_iff, Text.ext_iff]
    rw [hview, ← decimal_injective.eq_iff (a := dockerImagesTable.serverId x.2)]
    simp +decide [dockerImageEntry, dockerImagesTable, find?_record, List.find?]
  simp only [Shown, listDockerImages, List.mem_map, exists_exists_and_eq_and, hentry]
  exact dockerImagesTable.exists_selected_iff (p := fun r => rowView r = v) _

/-- The agent's own store shows the image. -/
def CacheShows (o : RowOrder) (t : Table CachedImageRow) (v : ImageView) : Prop :=
  ∃ img ∈ getCachedImages o t, img.id = v.1.bytes ∧ img.repository = v.2.1 ∧ img.tag = v.2.2

def cachedView (r : CachedImageRow) : ImageView :=
  (r.imageId, textColumn r.repository, textColumn r.tag)

theorem cacheShows_iff {o : RowOrder} {t : Table CachedImageRow} {v : ImageView} :
    CacheShows o t v ↔ ∃ r ∈ t.data, cachedView r = v := by
  have hmem : ∀ r, r ∈ o.orderBy cachedImageKey t.data ↔ r ∈ t.data := fun r =>
    (o.orderBy_perm cachedImageKey t.data).mem_iff
  constructor
  · rintro ⟨img, himg, hid, hrepository, htag⟩
    obtain ⟨r, hr, rfl⟩ := List.mem_map.1 himg
    exact ⟨r, (hmem r).1 hr, Prod.ext (Text.ext hid) (Prod.ext hrepository htag)⟩
  · rintro ⟨r, hr, rfl⟩
    exact ⟨_, List.mem_map_of_mem ((hmem r).2 hr), rfl, rfl, rfl⟩

theorem cacheShows_storeImages {o : RowOrder} {host : ImageHost} {lines : List ImageLine}
    {scanTime : Int} {t : Table CachedImageRow} {v : ImageView} :
    CacheShows o (storeImages scanTime (listImages host (printed lines)) t) v ↔
      LastOf v (lines.map lineView) ∨
        CacheShows o t v ∧ ∀ l ∈ lines, (lineView l).1 ≠ v.1 := by
  rw [cacheShows_iff, cacheShows_iff, storeImages]
  generalize hrows : (listImages host (printed lines)).map (cachedImageRow scanTime) = rows
  have hviews : rows.map cachedView = lines.map lineView := by
    rw [← hrows, listImages_printed, List.map_map]
    refine List.ext_getElem? fun i => ?_
    rw [List.getElem?_map, List.getElem?_mapIdx, List.getElem?_map, Option.map_map]
    refine congrArg (Option.map · _) (funext fun l => ?_)
    simp only [Function.comp, cachedView, cachedImageRow, imageRecord, lineView, textColumn,
      Option.map_some, Option.getD_some, Text.ofCStr_bytes, cstr_of_reference l.repository_bytes,
      cstr_of_reference l.tag_bytes]
  have hids : (∀ r ∈ rows, r.imageId ≠ v.1) ↔ ∀ l ∈ lines, (lineView l).1 ≠ v.1 := by
    have hmap : (∀ w ∈ lines.map lineView, w.1 ≠ v.1) ↔ ∀ l ∈ lines, (lineView l).1 ≠ v.1 :=
      List.forall_mem_map
    rw [← hmap, ← hviews, List.forall_mem_map]
    rfl
  rw [← hids, ← hviews, lastOf_map]
  constructor
  · rintro ⟨r, hr, rfl⟩
    rcases (Table.mem_data_replaceAll _ rows t r).1 hr with ⟨above, below, heq, hlast⟩ | ⟨hr, hnone⟩
    · exact .inl ⟨above, r, below, heq, hlast, rfl⟩
    · exact .inr ⟨⟨r, hr, rfl⟩, hnone⟩
  · rintro (⟨above, r, below, heq, hlast, rfl⟩ | ⟨⟨r, hr, rfl⟩, hnone⟩)
    · exact ⟨r, (Table.mem_data_replaceAll _ rows t r).2 (.inl ⟨above, below, heq, hlast⟩), rfl⟩
    · exact ⟨r, (Table.mem_data_replaceAll _ rows t r).2 (.inr ⟨hr, hnone⟩), rfl⟩

/-- A scan of a host whose images docker prints in these lines, with whatever else it found. -/
structure ScansImages (scan : Scan) (host : ImageHost) (lines : List ImageLine) : Prop where
  images : scan.images = listImages host (printed lines)
  services : ∀ cf ∈ scan.composeFiles, ∃ names, cf.servicesJson = servicesArray names

/-- What is shown once the scan was sent and imported. -/
theorem shown_imported {scan : Scan} {host : ImageHost} {lines : List ImageLine} {serverId : Int}
    {db : Db} (hscan : ScansImages scan host lines) (hs : serverId ∈ db.servers)
    (clock : Nat → Int) (timestamp : Int) (serverLabel : Bytes) (v : ImageView) :
    Shown serverId (parseAndStoreScan clock serverId
        (generateFullScanJson timestamp serverLabel scan) .init db).2.2 v ↔
      LastOf v (lines.map lineView) ∨
        Shown serverId db v ∧ ∀ l ∈ lines, (lineView l).1 ≠ v.1 := by
  rw [shown_iff, imported_shows hscan.images hscan.services hs, shown_iff]
  simp only [exists_and_right, ← and_assoc]

/-- After a scan was sent and imported no image is lost from `docker_images` exactly if the
lines are kept apart by five digits each, and so for the agent's own store. -/
theorem imagesKept_iff {scan : Scan} {host : ImageHost} {lines : List ImageLine} {serverId : Int}
    {db : Db} (hscan : ScansImages scan host lines) (hs : serverId ∈ db.servers)
    (clock : Nat → Int) (timestamp : Int) (serverLabel : Bytes) (o : RowOrder) (scanTime : Int)
    (t : Table CachedImageRow) :
    (Keeps (Shown serverId (parseAndStoreScan clock serverId
        (generateFullScanJson timestamp serverLabel scan) .init db).2.2) lines ↔
      KeptApart (Shown serverId db) lines) ∧
    (Keeps (CacheShows o (storeImages scanTime scan.images t)) lines ↔
      KeptApart (CacheShows o t) lines) := by
  refine ⟨keeps_iff fun v => shown_imported hscan hs clock timestamp serverLabel v, ?_⟩
  rw [hscan.images]
  exact keeps_iff fun v => cacheShows_storeImages

/-- An image whose id ends with the digit. -/
def sampleLine (last : UInt8) (h : isLowerHex last = true) : ImageLine where
  digest := List.replicate 63 97 ++ [last]
  repository := bytes "plex"
  tag := bytes "latest"
  size := bytes "187MB"
  createdAt := bytes "2026-01-01 00:00:00 +0000 UTC"
  digest_length := by simp
  digest_hex := by
    intro c hc
    rcases List.mem_append.1 hc with hc | hc
    · rw [List.eq_of_mem_replicate hc]
      decide
    · rw [List.mem_singleton.1 hc]
      exact h
  repository_bytes := by decide
  repository_brackets := by decide
  tag_bytes := by decide
  tag_brackets := by decide
  size_bytes := by decide
  createdAt_bytes := by decide
  createdAt_ne := by decide

def sampleScan (lines : List ImageLine) : Scan where
  containers := []
  composeFiles := []
  images := listImages ⟨fun _ => 0, fun _ => (0, 0)⟩ (printed lines)
  networks := []
  volumes := []

theorem scansImages_sampleScan (lines : List ImageLine) :
    ScansImages (sampleScan lines) ⟨fun _ => 0, fun _ => (0, 0)⟩ lines :=
  ⟨rfl, fun _ h => absurd h List.not_mem_nil⟩

/-- Two images whose ids differ in the last digit. -/
theorem sameDigits_not_kept :
    let lines := [sampleLine 48 (by decide), sampleLine 49 (by decide)]
    ¬ Keeps (Shown 1 (parseAndStoreScan (fun _ => 0) 1
        (generateFullScanJson 0 [] (sampleScan lines)) .init (.fresh [1])).2.2) lines := by
  intro lines h
  have happart := (keeps_iff fun v => shown_imported (scansImages_sampleScan lines)
    (List.mem_singleton.2 rfl) (fun _ => 0) 0 [] v).1 h
  exact happart.digits _ List.mem_cons_self _ (List.mem_cons_of_mem _ List.mem_cons_self)
    (by decide) rfl

theorem imagesKept_iff_oneImage :
    let lines := [sampleLine 48 (by decide)]
    Keeps (Shown 1 (parseAndStoreScan (fun _ => 0) 1
        (generateFullScanJson 0 [] (sampleScan lines)) .init (.fresh [1])).2.2) lines := by
  intro lines
  refine (imagesKept_iff (scansImages_sampleScan lines) (List.mem_singleton.2 rfl) (fun _ => 0) 0 []
    .byId 0 .empty).1.2 ⟨fun l hl l' hl' hne => ?_, fun l hl => ?_⟩
  · exact absurd (congrArg _ ((List.mem_singleton.1 hl).trans (List.mem_singleton.1 hl').symm)) hne
  · rw [List.mem_singleton.1 hl]
    exact .inl ⟨[], _, [], rfl, fun x hx => absurd hx List.not_mem_nil, rfl, rfl⟩

end Nazg.Docker

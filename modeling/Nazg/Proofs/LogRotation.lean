import Nazg.Blackbox.Logger

/-!
# The log loses only its oldest part

What a logger has written is seen as records in its files: a file that was there before is
one record, and so is each line. A rotation moves whole files, and drops at most the oldest,
so the records that are left are the latest ones. The stream writes its buffer out whole
before its file is renamed, so it does not matter when it writes the rest.
-/

namespace Nazg.Blackbox

open Lib Rotation

/-- The messages that are logged: those of the level, until one is fatal. -/
def logged (level : Level) : List Submission → List Submission
  | [] => []
  | s :: rest =>
      if s.level.toNat < level.toNat then logged level rest
      else if s.level = .fatal then [s]
      else s :: logged level rest

/-- Every file as one record. -/
def blocks (f : Files UInt8) : Files Bytes := mapFiles (fun text => [text]) f

/-- What is promised of `n` files behind the current one: they hold whole lines, the latest
ones, behind what is left of the files that were there before. -/
structure LogKept (n : Nat) (before after : Files UInt8) (lines : List Bytes) : Prop where
  suffix : contents n after <:+ contents n before ++ lines.flatten
  bounded : ∀ i, n < i → after i = none
  whole : ∃ records : Files Bytes, after = mapFiles List.flatten records ∧
    contents n records <:+ contents n (blocks before) ++ lines

namespace Logger

/-- The logger after `configure`. -/
def configured (cfg : Options) (level : Level) (tuiMode : Bool) (files : Files UInt8) : Logger :=
  rollToToday { cfg := cfg, level := level, tuiMode := tuiMode, files := files }

/-- The records in the files, what the stream still holds included. -/
structure Holds (m : Logger) (records : Files Bytes) : Prop where
  files : append m.buffer m.files = mapFiles List.flatten records
  isOpen : m.isOpen = true → (m.files 0).isSome
  closed : m.isOpen = false → m.buffer = []

variable {m : Logger} {records : Files Bytes} {n : Nat}

theorem Holds.openFileIfNeeded (h : m.Holds records) :
    ∃ records', m.openFileIfNeeded.Holds records' ∧ contents n records' = contents n records ∧
      (∀ i, 0 < i → records' i = records i) ∧ m.openFileIfNeeded.isOpen = true := by
  rw [Logger.openFileIfNeeded]
  split
  · next hopen => exact ⟨records, h, rfl, fun _ _ => rfl, hopen⟩
  · next hopen =>
      have hbuffer := h.closed (Bool.eq_false_of_not_eq_true hopen)
      have hfiles := h.files
      rw [hbuffer, append_nil] at hfiles
      refine ⟨touch records, ⟨?_, fun _ => rfl, fun hclosed => Bool.noConfusion hclosed⟩,
        contents_touch n records, fun i hi => if_neg (by omega), rfl⟩
      show append m.buffer (touch m.files) = _
      rw [hbuffer, append_nil, hfiles, mapFiles_touch _ List.flatten_nil]

theorem Holds.drain (h : m.Holds records) (k : Nat) : (m.drain k).Holds records := by
  refine ⟨?_, fun hopen => ?_, fun hclosed => ?_⟩
  · show append (m.buffer.drop k) (append (m.buffer.take k) m.files) = _
    rw [append_append, List.take_append_drop, h.files]
  · show ((m.files 0).map _).isSome = true
    rw [Option.isSome_map]
    exact h.isOpen hopen
  · show m.buffer.drop k = []
    rw [h.closed hclosed, List.drop_nil]

theorem buffer_openFileIfNeeded (m : Logger) : m.openFileIfNeeded.buffer = m.buffer := by
  rw [Logger.openFileIfNeeded]
  split <;> rfl

theorem buffer_flush (m : Logger) : m.flush.buffer = [] := by
  show m.buffer.drop m.buffer.length = []
  rw [List.drop_length]

theorem Holds.close (h : m.Holds records) : m.close.Holds records :=
  ⟨(h.drain m.buffer.length).files, fun hopen => Bool.noConfusion hopen, fun _ => buffer_flush m⟩

/-- After a rotation the files hold a later part of the records. -/
theorem Holds.maybeRotate (h : m.Holds records) (hopen : m.isOpen = true)
    (hn : 1 ≤ m.cfg.rotateFiles.toNat)
    (hbounded : ∀ i, m.cfg.rotateFiles.toNat < i → records i = none) :
    ∃ records', m.maybeRotate.Holds records' ∧
      contents m.cfg.rotateFiles.toNat records' <:+ contents m.cfg.rotateFiles.toNat records ∧
      (∀ i, m.cfg.rotateFiles.toNat < i → records' i = none) ∧
      (m.maybeRotate.buffer = m.buffer ∨ m.maybeRotate.buffer = []) := by
  rw [Logger.maybeRotate]
  split
  · exact ⟨records, h, List.suffix_refl _, hbounded, .inl rfl⟩
  · split
    · exact ⟨records, h, List.suffix_refl _, hbounded, .inl rfl⟩
    · split
      · exact ⟨records, h, List.suffix_refl _, hbounded, .inl rfl⟩
      · have hfiles := h.close.files
        have hbuffer : m.close.buffer = [] := buffer_flush m
        rw [hbuffer, append_nil] at hfiles
        have hrotated : Holds { m.close with files := rotate m.cfg.rotateFiles.toNat m.close.files }
            (rotate m.cfg.rotateFiles.toNat records) := by
          refine ⟨?_, fun hclosed => Bool.noConfusion hclosed, fun _ => hbuffer⟩
          show append m.close.buffer (rotate _ m.close.files) = _
          rw [hbuffer, append_nil, hfiles, mapFiles_rotate]
        obtain ⟨records', hholds, hcontents, hsame, -⟩ :=
          hrotated.openFileIfNeeded (n := m.cfg.rotateFiles.toNat)
        have hbuffer' := (buffer_openFileIfNeeded _).trans hbuffer
        refine ⟨records', hholds, ?_, fun i hi => ?_, .inr hbuffer'⟩
        · rw [hcontents]
          exact contents_rotate hn records
        · rw [hsame i (by omega), rotate_of_lt hn records hi]
          exact hbounded i hi

/-- What does not change between submissions. -/
structure SameSettings (m m' : Logger) : Prop where
  cfg : m'.cfg = m.cfg
  level : m'.level = m.level

theorem SameSettings.trans {m m' m'' : Logger} (h : SameSettings m m') (h' : SameSettings m' m'') :
    SameSettings m m'' := ⟨h'.cfg.trans h.cfg, h'.level.trans h.level⟩

theorem sameSettings_openFileIfNeeded (m : Logger) : SameSettings m m.openFileIfNeeded := by
  rw [Logger.openFileIfNeeded]
  split <;> exact ⟨rfl, rfl⟩

theorem sameSettings_maybeRotate (m : Logger) : SameSettings m m.maybeRotate := by
  rw [Logger.maybeRotate]
  split
  · exact ⟨rfl, rfl⟩
  · split
    · exact ⟨rfl, rfl⟩
    · split
      · exact ⟨rfl, rfl⟩
      · dsimp only
        split
        · exact ⟨(sameSettings_openFileIfNeeded _).cfg, (sameSettings_openFileIfNeeded _).level⟩
        · exact ⟨(sameSettings_openFileIfNeeded _).cfg, (sameSettings_openFileIfNeeded _).level⟩

theorem rollToToday_openFileIfNeeded (m : Logger) :
    m.rollToToday.openFileIfNeeded = m.openFileIfNeeded := by
  rw [rollToToday]
  split
  · rfl
  · next hclosed =>
      have hopened : m.openFileIfNeeded.isOpen = true := by
        rw [Logger.openFileIfNeeded, if_neg hclosed]
      rw [Logger.openFileIfNeeded, if_pos hopened]

/-- What is inserted into the open stream is one more record. -/
theorem Holds.insert (h : m.Holds records) (hopen : m.isOpen = true) (text : Bytes) :
    Holds { m with buffer := m.buffer ++ text } (append [text] records) := by
  refine ⟨?_, h.isOpen, fun hclosed => ?_⟩
  · show append (m.buffer ++ text) m.files = _
    rw [← append_append, h.files, ← mapFiles_append (fun s t => List.flatten_append),
      List.flatten_singleton]
  · rw [show m.isOpen = false from hclosed] at hopen
    exact Bool.noConfusion hopen

theorem Holds.write (h : m.Holds records) (hopen : m.isOpen = true) (s : Submission) :
    (m.write s).Holds (append [formattedLine m.cfg s] records) := by
  have hinserted := h.insert hopen (formattedLine m.cfg s)
  rw [Logger.write]
  split
  · exact (hinserted.drain s.drained).drain _
  · exact hinserted.drain s.drained

theorem sameSettings_write (m : Logger) (s : Submission) :
    SameSettings m (m.write s) ∧ (m.write s).isOpen = m.isOpen := by
  rw [Logger.write]
  split <;> exact ⟨⟨rfl, rfl⟩, rfl⟩

/-- Fatal messages are flushed. -/
theorem buffer_write {s : Submission} (h : s.level = .fatal) : (m.write s).buffer = [] := by
  rw [Logger.write, h]
  rw [if_pos (.inr (by decide))]
  exact buffer_flush _

theorem Holds.current (h : m.Holds records) (hopen : m.isOpen = true) : (records 0).isSome := by
  have hsome := h.isOpen hopen
  have heq := congrFun h.files 0
  rw [append, if_pos rfl, mapFiles] at heq
  rwa [← Option.isSome_map (f := List.flatten), ← heq, Option.isSome_map]

/-- A message that is logged becomes one more record, and a rotation may follow. -/
theorem Holds.submit (h : m.Holds records) (hn : 1 ≤ m.cfg.rotateFiles.toNat)
    (hbounded : ∀ i, m.cfg.rotateFiles.toNat < i → records i = none) {s : Submission}
    (hrunning : m.terminated = false) (hlevel : m.level.toNat ≤ s.level.toNat) :
    ∃ records', (m.submit s).Holds records' ∧ SameSettings m (m.submit s) ∧
      contents m.cfg.rotateFiles.toNat records' <:+
        contents m.cfg.rotateFiles.toNat records ++ [formattedLine m.cfg s] ∧
      (∀ i, m.cfg.rotateFiles.toNat < i → records' i = none) ∧
      (m.submit s).terminated = decide (s.level = .fatal) ∧
      (s.level = .fatal → (m.submit s).buffer = []) := by
  obtain ⟨opened, hopened, hcontents, hsame, hopen⟩ :=
    h.openFileIfNeeded (n := m.cfg.rotateFiles.toNat)
  have hsettings := sameSettings_openFileIfNeeded m
  have hwritten := hopened.write hopen s
  have hcurrent := hopened.current hopen
  obtain ⟨hsettings₂, hopen₂⟩ := sameSettings_write m.openFileIfNeeded s
  rw [Logger.submit, if_neg (by rw [hrunning]; exact Bool.false_ne_true), if_neg (by omega),
    rollToToday_openFileIfNeeded]
  have hcfg := (hsettings.trans hsettings₂).cfg
  obtain ⟨records', hrotated, hsuffix, hbounded', hbuffer⟩ :=
    hwritten.maybeRotate (hopen₂.trans hopen) (by rw [hcfg]; exact hn) (by
      intro i hi
      rw [hcfg] at hi
      rw [append, if_neg (by omega), hsame i (by omega)]
      exact hbounded i hi)
  have hrotation := sameSettings_maybeRotate (m.openFileIfNeeded.write s)
  rw [hcfg] at hsuffix hbounded'
  refine ⟨records', ⟨hrotated.files, hrotated.isOpen, hrotated.closed⟩,
    (hsettings.trans hsettings₂).trans ⟨hrotation.cfg, hrotation.level⟩, ?_, hbounded', rfl,
    fun hfatal => ?_⟩
  · rw [contents_append _ _ hcurrent, hcontents, hsettings.cfg] at hsuffix
    exact hsuffix
  · have hflushed := buffer_write (m := m.openFileIfNeeded) hfatal
    rcases hbuffer with hkept | hempty
    · exact hkept.trans hflushed
    · exact hempty

theorem submit_of_filtered {s : Submission} (h : s.level.toNat < m.level.toNat) :
    m.submit s = m := by
  rw [Logger.submit]
  split
  · rfl
  · rfl

theorem foldl_submit_of_terminated (h : m.terminated = true) (submissions : List Submission) :
    submissions.foldl submit m = m := by
  induction submissions with
  | nil => rfl
  | cons s submissions ih => rw [List.foldl_cons, Logger.submit, if_pos h, ih]

/-- After any submissions the files hold a suffix of the records with all lines. -/
theorem Holds.run (submissions : List Submission) (h : m.Holds records)
    (hn : 1 ≤ m.cfg.rotateFiles.toNat)
    (hbounded : ∀ i, m.cfg.rotateFiles.toNat < i → records i = none)
    (hrunning : m.terminated = false) :
    ∃ records', (submissions.foldl Logger.submit m).Holds records' ∧
      contents m.cfg.rotateFiles.toNat records' <:+ contents m.cfg.rotateFiles.toNat records ++
        (logged m.level submissions).map (formattedLine m.cfg) ∧
      (∀ i, m.cfg.rotateFiles.toNat < i → records' i = none) ∧
      ((submissions.foldl Logger.submit m).terminated = true →
        (submissions.foldl Logger.submit m).buffer = []) := by
  induction submissions generalizing m records with
  | nil =>
      refine ⟨records, h, ?_, hbounded, fun hterminated => ?_⟩
      · rw [logged, List.map_nil, List.append_nil]
      · rw [List.foldl_nil, hrunning] at hterminated
        exact Bool.noConfusion hterminated
  | cons s submissions ih =>
      rw [List.foldl_cons, logged]
      split
      · next hfiltered =>
          rw [submit_of_filtered hfiltered]
          exact ih h hn hbounded hrunning
      · next hlevel =>
          obtain ⟨records₁, hholds, hsettings, hsuffix, hbounded₁, hterminated, hbuffer⟩ :=
            h.submit hn hbounded hrunning (by omega : m.level.toNat ≤ s.level.toNat)
          split
          · next hfatal =>
              rw [foldl_submit_of_terminated (by rw [hterminated]; exact decide_eq_true hfatal)]
              exact ⟨records₁, hholds, hsuffix, hbounded₁, fun _ => hbuffer hfatal⟩
          · next hfatal =>
              have hcfg := hsettings.cfg
              obtain ⟨records', hholds', hsuffix', hbounded', hbuffer'⟩ := ih hholds
                (by rw [hcfg]; exact hn) (by rw [hcfg]; exact hbounded₁)
                (by rw [hterminated]; exact decide_eq_false hfatal)
              rw [hcfg, hsettings.level] at hsuffix'
              rw [hcfg] at hbounded'
              refine ⟨records', hholds', hsuffix'.trans ?_, hbounded', hbuffer'⟩
              obtain ⟨lost, hlost⟩ := hsuffix
              refine ⟨lost, ?_⟩
              rw [← List.append_assoc, hlost, List.map_cons, List.append_assoc,
                List.singleton_append]

theorem flatten_blocks (f : Files UInt8) : mapFiles List.flatten (blocks f) = f := by
  funext i
  rw [mapFiles, blocks, mapFiles]
  cases f i with
  | none => rfl
  | some text => rw [Option.map_some, Option.map_some, List.flatten_singleton]

theorem flatten_suffix {l l' : List Bytes} (h : l <:+ l') : l.flatten <:+ l'.flatten := by
  obtain ⟨lost, rfl⟩ := h
  exact ⟨lost.flatten, List.flatten_append.symm⟩

/-- The stream is empty in the end, closed or terminated. -/
theorem Holds.destroy (h : m.Holds records) (hterminated : m.terminated = true → m.buffer = []) :
    m.destroy.files = mapFiles List.flatten records := by
  have hempty : ∀ m' : Logger, m'.Holds records → m'.buffer = [] →
      m'.files = mapFiles List.flatten records := by
    intro m' h' hbuffer
    rw [← h'.files, hbuffer, append_nil]
  rw [Logger.destroy]
  split
  · next hstopped => exact hempty m h (hterminated hstopped)
  · split
    · exact hempty m.close h.close (buffer_flush m)
    · next hclosed => exact hempty m h (h.closed (Bool.eq_false_of_not_eq_true hclosed))

/-- The log as it is left: at most the oldest files are lost, whatever the stream wrote out
when. -/
theorem log_kept (cfg : Options) (level : Level) (tuiMode : Bool) (n : Nat) (hn : 1 ≤ n)
    (hcfg : cfg.rotateFiles = n) (before : Files UInt8) (hbefore : ∀ i, n < i → before i = none)
    (submissions : List Submission) :
    LogKept n before
      (submissions.foldl submit (configured cfg level tuiMode before)).destroy.files
      ((logged level submissions).map (formattedLine cfg)) := by
  have hcount : cfg.rotateFiles.toNat = n := by omega
  -- Before the logger opens its file, every file is one record.
  have hstart : Holds { cfg := cfg, level := level, tuiMode := tuiMode, files := before }
      (blocks before) :=
    ⟨by rw [append_nil, flatten_blocks], fun hopen => Bool.noConfusion hopen, fun _ => rfl⟩
  obtain ⟨records, hholds, hcontents, hsame, -⟩ := hstart.openFileIfNeeded (n := n)
  have hbounded : ∀ i, n < i → records i = none := by
    intro i hi
    rw [hsame i (by omega), blocks, mapFiles, hbefore i hi]
    rfl
  obtain ⟨records', hfinal, hsuffix, hbounded', hbuffer⟩ := hholds.run submissions
    (by show 1 ≤ cfg.rotateFiles.toNat; omega)
    (by show ∀ i, cfg.rotateFiles.toNat < i → _; rw [hcount]; exact hbounded) rfl
  have hsuffix' : contents n records' <:+
      contents n (blocks before) ++ (logged level submissions).map (formattedLine cfg) := by
    rw [← hcontents, ← hcount]
    exact hsuffix
  have hfiles : (submissions.foldl submit (configured cfg level tuiMode before)).destroy.files =
      mapFiles List.flatten records' := hfinal.destroy hbuffer
  refine ⟨?_, fun i hi => ?_, records', hfiles, hsuffix'⟩
  · have hflat := flatten_suffix hsuffix'
    have hcontent : ∀ f : Files Bytes,
        contents n (mapFiles List.flatten f) = (contents n f).flatten :=
      contents_mapFiles (fun s t => List.flatten_append) List.flatten_nil n
    rw [List.flatten_append, ← hcontent, ← hcontent, flatten_blocks, ← hfiles] at hflat
    exact hflat
  · rw [hfiles, mapFiles, hbounded' i (by show cfg.rotateFiles.toNat < i; omega)]
    rfl

/-- Two messages, of which the second one is fatal. -/
theorem log_kept_fatal :
    LogKept 2 (fun _ => none)
      ([⟨.info, bytes "up", none, 1, none, none, bytes "12:00:00.000", 1, bytes "7", 3⟩,
        ⟨.fatal, bytes "down", none, 2, none, none, bytes "12:00:01.000", 1, bytes "7", 0⟩].foldl
        submit (configured { rotateFiles := 2, rotateBytes := 40 } .info false
          fun _ => none)).destroy.files
      ((logged .info
        [⟨.info, bytes "up", none, 1, none, none, bytes "12:00:00.000", 1, bytes "7", 3⟩,
          ⟨.fatal, bytes "down", none, 2, none, none, bytes "12:00:01.000", 1, bytes "7", 0⟩]).map
        (formattedLine { rotateFiles := 2, rotateBytes := 40 })) :=
  log_kept { rotateFiles := 2, rotateBytes := 40 } .info false 2 (by decide) rfl (fun _ => none)
    (fun _ _ => rfl) _

end Logger

end Nazg.Blackbox

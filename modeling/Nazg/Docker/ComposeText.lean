import Nazg.Docker.ComposeParser

/-!
# Compose texts in block style

What may stand in a compose file as far as the services, their dependencies and their
network modes go, and every way to write it down: nested by spaces, with blank lines and
comments anywhere, with scalars quoted or not, and with `depends_on` as a block list, an
inline list or a mapping of services to conditions. A text comes with what it declares.

`Written` says that a text is one of these; `Plain` singles out the way of writing that
the parser reads.
-/

namespace Nazg.Docker

open Lib

def spaces (n : Nat) : Bytes := List.replicate n space

/-- White space, a carriage return before the line break included. -/
def White (w : Bytes) : Prop := ∀ c ∈ w, isLineEnd c = true

/-! ## Lines -/

/-- A line that declares nothing. -/
inductive Noise where
  | blank (white : Bytes)
  | comment (indent : Nat) (text : Bytes)

def Noise.line : Noise → Line
  | blank white => white
  | comment n text => spaces n ++ hash :: text

def Noise.Written : Noise → Prop
  | blank white => White white
  | comment _ _ => True

/-- A comment at the very start of its line; blank lines may be anywhere. -/
def Noise.Flush : Noise → Prop
  | blank _ => True
  | comment n _ => n = 0

/-- A comment at the start of its line or deeper than `indent`. -/
def Noise.Apart (indent : Nat) : Noise → Prop
  | blank _ => True
  | comment n _ => n = 0 ∨ indent < n

/-- What follows the last word of a line. -/
structure Trail where
  white : Bytes
  comment : Option Bytes

def Trail.text (t : Trail) : Bytes :=
  t.white ++ (t.comment.map fun c => space :: hash :: c).getD []

/-- `key:` and the rest of the line. -/
def keyLine (indent : Nat) (key after : Bytes) : Line := spaces indent ++ (key ++ colon :: after)

/-- `- ` and the rest of the line. -/
def itemLine (indent gap : Nat) (after : Bytes) : Line :=
  spaces indent ++ dash :: (spaces (gap + 1) ++ after)

inductive Quoting where
  | plain
  | single
  | double
  deriving DecidableEq

structure Scalar where
  value : Bytes
  quoting : Quoting

def Scalar.written (s : Scalar) : Bytes :=
  match s.quoting with
  | .plain => s.value
  | .single => apostrophe :: (s.value ++ [apostrophe])
  | .double => quote :: (s.value ++ [quote])

/-- A plain scalar begins and ends with a visible byte and is no quoted one; a quoted one
does not hold its quote. -/
def Scalar.Written (s : Scalar) : Prop :=
  match s.quoting with
  | .plain => s.value ≠ [] ∧ trim s.value = s.value ∧ s.value.head? ≠ some quote ∧
      s.value.head? ≠ some apostrophe
  | .single => apostrophe ∉ s.value
  | .double => quote ∉ s.value ∧ backslash ∉ s.value

/-- A word that may stand before the colon of a key. -/
def KeyText (key : Bytes) : Prop :=
  key ≠ [] ∧ trim key = key ∧ colon ∉ key ∧ key.head? ≠ some hash ∧ key.head? ≠ some dash

instance (key : Bytes) : Decidable (KeyText key) :=
  inferInstanceAs (Decidable (_ ∧ _ ∧ _ ∧ _ ∧ _))

/-- A line of whatever is nested below a key at `indent`: noise, or deeper than the key. -/
def Below (indent : Nat) (line : Line) : Prop := isNoise line = true ∨ indent < getIndentLevel line

/-- The same without the comments that stand neither at the start of the line nor deeper
than the key. -/
def BelowApart (indent : Nat) (line : Line) : Prop :=
  isFlushNoise line = true ∨ indent < getIndentLevel line

/-! ## Dependencies -/

/-- An item of a block list, below what noise stands before it. -/
structure Item where
  before : List Noise
  indent : Nat
  gap : Nat
  name : Scalar
  trail : Trail

def Item.lines (i : Item) : List Line :=
  i.before.map (·.line) ++ [itemLine i.indent i.gap (i.name.written ++ i.trail.text)]

def Item.Written (indent : Nat) (i : Item) : Prop :=
  (∀ n ∈ i.before, n.Written) ∧ indent < i.indent ∧ i.name.Written ∧ White i.trail.white

/-- Not quoted, no comment behind it, the comments before it apart. -/
def Item.Plain (indent : Nat) (i : Item) : Prop :=
  (∀ n ∈ i.before, n.Apart indent) ∧ i.name.quoting = .plain ∧ i.trail.comment = none

/-- `name:` in a mapping of services to conditions, and the lines of its condition. -/
structure Condition where
  before : List Noise
  indent : Nat
  name : Scalar
  trail : Trail
  nested : List Line

def Condition.lines (c : Condition) : List Line :=
  c.before.map (·.line) ++ keyLine c.indent c.name.written c.trail.text :: c.nested

def Condition.Written (indent : Nat) (c : Condition) : Prop :=
  (∀ n ∈ c.before, n.Written) ∧ indent < c.indent ∧ c.name.Written ∧ KeyText c.name.written ∧
    White c.trail.white ∧ ∀ l ∈ c.nested, Below c.indent l ∧ isListItem l = false

def Condition.Plain (indent : Nat) (c : Condition) : Prop :=
  (∀ n ∈ c.before, n.Apart indent) ∧ ∀ l ∈ c.nested, BelowApart indent l

inductive DependsOn where
  | list (trail : Trail) (items : List Item)
  | inline (names : List Scalar) (trail : Trail)
  | mapping (trail : Trail) (conditions : List Condition)

/-- `[a, b]`. -/
def flowList (names : List Scalar) : Bytes :=
  openBracket :: ((names.map (·.written)).intersperse (bytes ", ")).flatten ++ [closeBracket]

def DependsOn.lines (indent : Nat) : DependsOn → List Line
  | list trail items => keyLine indent (bytes "depends_on") trail.text :: items.flatMap (·.lines)
  | inline names trail =>
      [keyLine indent (bytes "depends_on") (space :: (flowList names ++ trail.text))]
  | mapping trail conditions =>
      keyLine indent (bytes "depends_on") trail.text :: conditions.flatMap (·.lines)

/-- The services that are declared as dependencies. -/
def DependsOn.names : DependsOn → List Bytes
  | list _ items => items.map (·.name.value)
  | inline names _ => names.map (·.value)
  | mapping _ conditions => conditions.map (·.name.value)

/-- The names in a block list; the two other forms list none. -/
def DependsOn.listed : DependsOn → List Bytes
  | list _ items => items.map (·.name.value)
  | inline _ _ => []
  | mapping _ _ => []

def DependsOn.Written (indent : Nat) : DependsOn → Prop
  | list trail items => White trail.white ∧ ∀ i ∈ items, i.Written indent
  | inline names trail => (∀ s ∈ names, s.Written) ∧ White trail.white
  | mapping trail conditions => White trail.white ∧ ∀ c ∈ conditions, c.Written indent

def DependsOn.Plain (indent : Nat) : DependsOn → Prop
  | list _ items => ∀ i ∈ items, i.Plain indent
  | inline _ _ => True
  | mapping _ conditions => ∀ c ∈ conditions, c.Plain indent

/-! ## Services -/

/-- The keys whose value is one scalar on the line of the key. -/
def scalarKeys : List Bytes :=
  [bytes "image", bytes "container_name", bytes "restart", bytes "privileged"]

inductive EntryBody where
  | dependsOn (d : DependsOn)
  | networkMode (gap : Nat) (mode : Scalar) (trail : Trail)
  | other (key after : Bytes) (nested : List Line)

def EntryBody.lines (indent : Nat) : EntryBody → List Line
  | dependsOn d => d.lines indent
  | networkMode gap mode trail =>
      [keyLine indent (bytes "network_mode") (spaces (gap + 1) ++ (mode.written ++ trail.text))]
  | other key after nested => keyLine indent key after :: nested

def EntryBody.Written (indent : Nat) : EntryBody → Prop
  | dependsOn d => d.Written indent
  | networkMode _ mode trail => mode.Written ∧ White trail.white
  | other key _ nested =>
      KeyText key ∧ key ≠ bytes "depends_on" ∧ key ≠ bytes "network_mode" ∧
        (key ∈ scalarKeys → nested = []) ∧ ∀ l ∈ nested, Below indent l

def EntryBody.Plain (indent : Nat) : EntryBody → Prop
  | dependsOn d => d.Plain indent
  | networkMode _ _ trail => trail.comment = none
  | other _ _ nested => ∀ l ∈ nested, BelowApart indent l

def EntryBody.listed : EntryBody → List Bytes
  | dependsOn d => d.listed
  | _ => []

def EntryBody.names : EntryBody → List Bytes
  | dependsOn d => d.names
  | _ => []

def EntryBody.mode : EntryBody → Option Bytes
  | networkMode _ mode _ => some mode.value
  | _ => none

/-- A key of a service with what is below it, and the noise that follows. -/
structure Entry where
  body : EntryBody
  after : List Noise

def Entry.lines (indent : Nat) (e : Entry) : List Line :=
  e.body.lines indent ++ e.after.map (·.line)

/-- `name:`, noise, and the entries, all at the indentation `inner`. -/
structure ServiceText where
  name : Scalar
  trail : Trail
  between : List Noise
  inner : Nat
  entries : List Entry

def ServiceText.lines (indent : Nat) (s : ServiceText) : List Line :=
  keyLine indent s.name.written s.trail.text ::
    (s.between.map (·.line) ++ s.entries.flatMap (·.lines s.inner))

def ServiceText.Written (indent : Nat) (s : ServiceText) : Prop :=
  s.name.Written ∧ KeyText s.name.written ∧ White s.trail.white ∧
    (∀ n ∈ s.between, n.Written) ∧ indent < s.inner ∧
    ∀ e ∈ s.entries, e.body.Written s.inner ∧ ∀ n ∈ e.after, n.Written

def ServiceText.Plain (s : ServiceText) : Prop :=
  s.name.quoting = .plain ∧ ∀ e ∈ s.entries, e.body.Plain s.inner

/-- The mode given last; a mapping has each key once. -/
def ServiceText.mode (s : ServiceText) : Bytes :=
  ((s.entries.filterMap (·.body.mode)).getLast?).getD []

def ServiceText.names (s : ServiceText) : List Bytes := s.entries.flatMap (·.body.names)

def ServiceText.listed (s : ServiceText) : List Bytes := s.entries.flatMap (·.body.listed)

/-! ## Files -/

/-- A key at the top of the file with what is below it. -/
inductive Section where
  | services (trail : Trail) (between : List Noise) (inner : Nat) (texts : List ServiceText)
  | other (key after : Bytes) (nested : List Line) (below : List Noise)

def Section.lines (indent : Nat) : Section → List Line
  | services trail between inner texts =>
      keyLine indent (bytes "services") trail.text ::
        (between.map (·.line) ++ texts.flatMap (·.lines inner))
  | other key after nested below => keyLine indent key after :: (nested ++ below.map (·.line))

def Section.texts : Section → List ServiceText
  | services _ _ _ texts => texts
  | other _ _ _ _ => []

def Section.Written (indent : Nat) : Section → Prop
  | services trail between inner texts =>
      White trail.white ∧ (∀ n ∈ between, n.Written) ∧ indent < inner ∧
        ∀ s ∈ texts, s.Written inner
  | other key _ nested below =>
      KeyText key ∧ key ≠ bytes "services" ∧ (∀ l ∈ nested, Below indent l) ∧
        ∀ n ∈ below, n.Written

/-- Comments between `services:` and the first service are at the start of their line;
below a key the parser has no loop for, and below `volumes:` from a comment on that is
not apart, no line has the key `services`. -/
def Section.Plain (indent : Nat) : Section → Prop
  | services _ between _ texts => (∀ n ∈ between, n.Flush) ∧ ∀ s ∈ texts, s.Plain
  | other key _ nested _ =>
      key = bytes "networks" ∨ (key = bytes "volumes" ∧ ∀ l ∈ nested, BelowApart indent l) ∨
        ∀ l ∈ nested, isNoise l = true ∨ extractKey l ≠ bytes "services"

/-- A file: noise, then the sections, all at one indentation. -/
structure FileText where
  before : List Noise
  indent : Nat
  sections : List Section

def FileText.lines (doc : FileText) : List Line :=
  doc.before.map (·.line) ++ doc.sections.flatMap (·.lines doc.indent)

def FileText.texts (doc : FileText) : List ServiceText := doc.sections.flatMap (·.texts)

/-- A compose text in block style; no service is declared twice. -/
def FileText.Written (doc : FileText) : Prop :=
  (∀ n ∈ doc.before, n.Written) ∧ (∀ s ∈ doc.sections, s.Written doc.indent) ∧
    (doc.texts.map (·.name.value)).Nodup

def FileText.Plain (doc : FileText) : Prop := ∀ s ∈ doc.sections, s.Plain doc.indent

/-- The declared services, each with its dependencies and its network mode. -/
def FileText.declared (doc : FileText) : List (Bytes × List Bytes × Bytes) :=
  doc.texts.map fun s => (s.name.value, s.names, s.mode)

def ServiceText.read (s : ServiceText) : Bytes × List Bytes × Bytes :=
  (s.name.value, s.listed, s.mode)

/-- The same with the dependencies of block lists only. -/
def FileText.listed (doc : FileText) : List (Bytes × List Bytes × Bytes) :=
  doc.texts.map (·.read)

/-- The lines of a file, each with its line break. -/
def unlines (ls : List Line) : Bytes := ls.flatMap (· ++ [10])

/-! ## The conditions are decidable -/

instance (w : Bytes) : Decidable (White w) := inferInstanceAs (Decidable (∀ c ∈ w, _))

instance Noise.decidableWritten : (x : Noise) → Decidable x.Written
  | .blank white => inferInstanceAs (Decidable (White white))
  | .comment _ _ => inferInstanceAs (Decidable True)

instance Noise.decidableFlush : (x : Noise) → Decidable x.Flush
  | .blank _ => inferInstanceAs (Decidable True)
  | .comment n _ => inferInstanceAs (Decidable (n = 0))

instance Noise.decidableApart (indent : Nat) : (x : Noise) → Decidable (x.Apart indent)
  | .blank _ => inferInstanceAs (Decidable True)
  | .comment n _ => inferInstanceAs (Decidable (n = 0 ∨ indent < n))

instance Scalar.decidableWritten : (s : Scalar) → Decidable s.Written
  | ⟨value, .plain⟩ => inferInstanceAs (Decidable (value ≠ [] ∧ trim value = value ∧
      value.head? ≠ some quote ∧ value.head? ≠ some apostrophe))
  | ⟨value, .single⟩ => inferInstanceAs (Decidable (apostrophe ∉ value))
  | ⟨value, .double⟩ => inferInstanceAs (Decidable (quote ∉ value ∧ backslash ∉ value))

instance (indent : Nat) (l : Line) : Decidable (Below indent l) :=
  inferInstanceAs (Decidable (_ ∨ _))

instance (indent : Nat) (l : Line) : Decidable (BelowApart indent l) :=
  inferInstanceAs (Decidable (_ ∨ _))

instance Item.decidableWritten (indent : Nat) (i : Item) : Decidable (i.Written indent) :=
  inferInstanceAs (Decidable (_ ∧ _ ∧ _ ∧ _))

instance Item.decidablePlain (indent : Nat) (i : Item) : Decidable (i.Plain indent) :=
  inferInstanceAs (Decidable (_ ∧ _ ∧ _))

instance Condition.decidableWritten (indent : Nat) (c : Condition) : Decidable (c.Written indent) :=
  inferInstanceAs (Decidable (_ ∧ _ ∧ _ ∧ _ ∧ _ ∧ _))

instance Condition.decidablePlain (indent : Nat) (c : Condition) : Decidable (c.Plain indent) :=
  inferInstanceAs (Decidable (_ ∧ _))

instance DependsOn.decidableWritten (indent : Nat) : (d : DependsOn) → Decidable (d.Written indent)
  | .list _ _ => inferInstanceAs (Decidable (_ ∧ _))
  | .inline _ _ => inferInstanceAs (Decidable (_ ∧ _))
  | .mapping _ _ => inferInstanceAs (Decidable (_ ∧ _))

instance DependsOn.decidablePlain (indent : Nat) : (d : DependsOn) → Decidable (d.Plain indent)
  | .list _ items => inferInstanceAs (Decidable (∀ i ∈ items, i.Plain indent))
  | .inline _ _ => inferInstanceAs (Decidable True)
  | .mapping _ conditions => inferInstanceAs (Decidable (∀ c ∈ conditions, c.Plain indent))

instance EntryBody.decidableWritten (indent : Nat) : (b : EntryBody) → Decidable (b.Written indent)
  | .dependsOn d => inferInstanceAs (Decidable (d.Written indent))
  | .networkMode _ _ _ => inferInstanceAs (Decidable (_ ∧ _))
  | .other _ _ _ => inferInstanceAs (Decidable (_ ∧ _ ∧ _ ∧ _ ∧ _))

instance EntryBody.decidablePlain (indent : Nat) : (b : EntryBody) → Decidable (b.Plain indent)
  | .dependsOn d => inferInstanceAs (Decidable (d.Plain indent))
  | .networkMode _ _ trail => inferInstanceAs (Decidable (trail.comment = none))
  | .other _ _ nested => inferInstanceAs (Decidable (∀ l ∈ nested, BelowApart indent l))

instance ServiceText.decidableWritten (indent : Nat) (s : ServiceText) :
    Decidable (s.Written indent) :=
  inferInstanceAs (Decidable (_ ∧ _ ∧ _ ∧ _ ∧ _ ∧ ∀ e ∈ s.entries, _ ∧ _))

instance ServiceText.decidablePlain (s : ServiceText) : Decidable s.Plain :=
  inferInstanceAs (Decidable (_ ∧ _))

instance Section.decidableWritten (indent : Nat) : (s : Section) → Decidable (s.Written indent)
  | .services _ _ _ _ => inferInstanceAs (Decidable (_ ∧ _ ∧ _ ∧ _))
  | .other _ _ _ _ => inferInstanceAs (Decidable (_ ∧ _ ∧ _ ∧ _))

instance Section.decidablePlain (indent : Nat) : (s : Section) → Decidable (s.Plain indent)
  | .services _ _ _ _ => inferInstanceAs (Decidable (_ ∧ _))
  | .other _ _ _ _ => inferInstanceAs (Decidable (_ ∨ _ ∨ _))

instance FileText.decidableWritten (doc : FileText) : Decidable doc.Written :=
  inferInstanceAs (Decidable (_ ∧ _ ∧ _))

instance FileText.decidablePlain (doc : FileText) : Decidable doc.Plain :=
  inferInstanceAs (Decidable (∀ s ∈ _, _))

/-! ## What is read -/

/-- The part of a service that its dependencies and its network mode make up. -/
def ComposeService.read (s : ComposeService) : List Bytes × Bytes := (s.dependsOn, s.networkMode)

/-- The map holds these services and no other. -/
def Holds (compose : ComposeFile) (services : List (Bytes × List Bytes × Bytes)) : Prop :=
  ∀ name, (compose.services.find? name).map (·.read) = OrdMap.lookup name services

end Nazg.Docker

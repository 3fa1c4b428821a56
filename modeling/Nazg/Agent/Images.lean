import Mathlib.Data.List.DropRight
import Mathlib.Data.Prod.Lex
import Mathlib.Order.WithBot
import Nazg.Agent.Scanner
import Nazg.Lib.Bytes
import Nazg.Lib.Query
import Nazg.Lib.Stdio
import Nazg.Lib.Words

/-!
# The images of a host

`docker images` prints a line for each pair of a repository and a tag, with the id of the
image, and the agent takes the first bytes of the id. The records go into the scan that is
sent, and into a store of the agent's own, where the id is the key.
-/

namespace Nazg.Agent

open Lib Lib.Sqlite

/-- What `list_images` meets: for each record the clock, and what stands in the memory of its
two numbers before they are set. -/
structure ImageHost where
  now : Nat → Int64
  memory : Nat → Int64 × Int64

/-- The record of a line. A field that the line does not have leaves what was there. -/
def imageOfLine (host : ImageHost) (i : Nat) (line : Bytes) : DockerImageInfo :=
  let fields := getFields 124 line
  { id := (fields.getD 0 []).take 12
    repository := fields.getD 1 []
    tag := fields.getD 2 []
    sizeBytes := if 3 < fields.length then 0 else (host.memory i).1
    created := if 4 < fields.length then host.now i else (host.memory i).2 }

/-- `DockerScanner::list_images`, from what docker prints. -/
def listImages (host : ImageHost) (output : Bytes) : List DockerImageInfo :=
  ((getFields 10 (readPipe 256 output)).filter (· ≠ [])).mapIdx (imageOfLine host)

/-! ## The agent's own store -/

/-- A row of `cached_images`. -/
structure CachedImageRow where
  imageId : Text
  repository : Option Text
  tag : Option Text
  sizeBytes : Value
  created : Value
  lastSeen : Int

def cachedImageRow (scanTime : Int) (img : DockerImageInfo) : CachedImageRow where
  imageId := .ofCStr img.id
  repository := some (.ofCStr img.repository)
  tag := some (.ofCStr img.tag)
  sizeBytes := .int img.sizeBytes.toInt
  created := .int img.created.toInt
  lastSeen := scanTime

/-- `LocalStore::store_images`. -/
def storeImages (scanTime : Int) (images : List DockerImageInfo) (t : Table CachedImageRow) :
    Table CachedImageRow :=
  t.replaceAll CachedImageRow.imageId (images.map (cachedImageRow scanTime))

/-- `row.get_int(col).value_or(0)`. -/
def intOf (v : Value) : Int64 :=
  Int64.ofInt ((v.getText.bind fun s => if s = [] then none else stoll s).getD 0)

/-- `ORDER BY repository, tag`, where NULL comes first. -/
def cachedImageKey (r : CachedImageRow) : Lex (WithBot Bytes × WithBot Bytes) :=
  toLex (r.repository.map Text.bytes, r.tag.map Text.bytes)

/-- `LocalStore::get_cached_images`. -/
def getCachedImages (o : RowOrder) (t : Table CachedImageRow) : List DockerImageInfo :=
  (o.orderBy cachedImageKey t.data).map fun r =>
    { id := r.imageId.bytes
      repository := (r.repository.map Text.bytes).getD []
      tag := (r.tag.map Text.bytes).getD []
      sizeBytes := intOf r.sizeBytes
      created := intOf r.created }

/-!
## The services of a compose file, as the agent finds them

`discover_compose_files` goes over the lines of a compose file once. From a line with
`services:` in it on it takes what stands before the colon of every line that is indented by
two blanks at least, up to a line that begins in the first column.
-/

/-- `line.find("services:") != npos`. -/
def mentionsServices (line : Bytes) : Bool := (find (bytes "services:") line).isSome

/-- A line that ends the services. -/
def beginsAtLeft : Bytes → Bool
  | [] => false
  | c :: _ => c ≠ 32 && c ≠ 9

/-- The name that a line below `services:` gives, if it gives one. -/
def definedService (line : Bytes) : Option Bytes :=
  if bytes "  " <+: line ∧ (58 : UInt8) ∈ line then
    let isBlank := fun c : UInt8 => c = 32 || c = 9
    let service := ((line.takeWhile (· ≠ 58)).drop 2).dropWhile isBlank |>.rdropWhile isBlank
    if service = [] then none else some service
  else none

/-- The loop of `discover_compose_files` over the lines of a file. -/
def discoverServices : Bool → List Bytes → List Bytes
  | _, [] => []
  | inServices, line :: ls =>
      if mentionsServices line then discoverServices true ls
      else if inServices && beginsAtLeft line then []
      else if inServices then (definedService line).toList ++ discoverServices inServices ls
      else discoverServices inServices ls

/-! ## The lines that it reads -/

section

variable {α : Type*} (line : α → Bytes)

/-- From the first mention of `services:` up to a line in the first column that has none. -/
def readLinesOf (ls : List α) : List α :=
  (ls.dropWhile fun l => !mentionsServices (line l)).takeWhile fun l =>
    mentionsServices (line l) || !beginsAtLeft (line l)

/-- What a line gives that is read. -/
def givenName (l : Bytes) : Option Bytes := if mentionsServices l then none else definedService l

theorem discoverServices_true (ls : List Bytes) : discoverServices true ls =
    (ls.takeWhile fun l => mentionsServices l || !beginsAtLeft l).filterMap givenName := by
  induction ls with
  | nil => rfl
  | cons l ls ih =>
      rw [discoverServices, List.takeWhile_cons]
      by_cases hmention : mentionsServices l = true
      · have hnone : givenName l = none := if_pos hmention
        rw [if_pos hmention, hmention, Bool.true_or, if_pos rfl, List.filterMap_cons_none hnone, ih]
      · have hgiven : givenName l = definedService l := if_neg hmention
        have hmention' : mentionsServices l = false := Bool.eq_false_of_not_eq_true hmention
        rw [if_neg hmention, hmention', Bool.false_or, Bool.true_and]
        cases hleft : beginsAtLeft l with
        | true => rfl
        | false =>
            simp only [Bool.false_eq_true, if_false, if_true, Bool.not_false, ih,
              List.filterMap_cons, hgiven]
            cases definedService l <;> rfl

theorem discoverServices_false (ls : List Bytes) :
    discoverServices false ls = (readLinesOf id ls).filterMap givenName := by
  induction ls with
  | nil => rfl
  | cons l ls ih =>
      rw [discoverServices, readLinesOf, List.dropWhile_cons]
      by_cases hmention : mentionsServices l = true
      · have hnone : givenName l = none := if_pos hmention
        simp only [hmention, if_true, id, Bool.not_true, Bool.false_eq_true, if_false,
          List.takeWhile_cons, Bool.true_or, List.filterMap_cons_none hnone]
        exact discoverServices_true ls
      · have hmention' : mentionsServices l = false := Bool.eq_false_of_not_eq_true hmention
        simp only [hmention', Bool.false_eq_true, if_false, Bool.false_and, id, Bool.not_false,
          if_true]
        exact ih

/-- Lines that carry something are read like the lines alone. -/
theorem map_readLinesOf (ls : List α) :
    (readLinesOf line ls).map line = readLinesOf id (ls.map line) := by
  rw [readLinesOf, readLinesOf, List.dropWhile_map, List.takeWhile_map]
  rfl

end

end Nazg.Agent

import Mathlib.Data.List.DropRight
import Nazg.Docker.ComposeFile
import Nazg.Lib.Cursor

/-!
# The compose parser

`ComposeParser::parse` goes over the lines of a file with one cursor that nested loops
share. Every loop leaves the cursor on the first line that is not its own, by
indentation; the loops of the source are turns here (`Lib.run`), and what lies under and
behind the cursor is the list of the remaining lines.

The loops do not agree on comments. The outer ones skip a line whose first visible
character is `#`; the loops below a key skip it only when `#` is the very first
character, and take any other comment for content.
-/

namespace Nazg.Docker

open Lib

abbrev Line := Bytes

abbrev colon : UInt8 := 58
abbrev dash : UInt8 := 45
abbrev hash : UInt8 := 35
abbrev space : UInt8 := 32
abbrev tab : UInt8 := 9
abbrev apostrophe : UInt8 := 39

/-- `std::getline` until it fails. -/
def getLines : Bytes → List Line
  | [] => []
  | c :: s =>
      if c = 10 then [] :: getLines s
      else
        match getLines s with
        | [] => [[c]]
        | l :: ls => (c :: l) :: ls

/-! ## Helpers -/

def isTabOrSpace (c : UInt8) : Bool := c = space || c = tab

def isLineEnd (c : UInt8) : Bool := c = space || c = tab || c = 13 || c = 10

/-- White space off the front, and line ends too off the back. -/
def trim (s : Bytes) : Bytes :=
  (s.dropWhile isTabOrSpace).rdropWhile isLineEnd

def getIndentLevel : Line → Nat
  | [] => 0
  | c :: s =>
      if c = space then getIndentLevel s + 1
      else if c = tab then getIndentLevel s + 2
      else 0

def extractKey (line : Line) : Bytes :=
  if colon ∈ trim line then trim ((trim line).takeWhile (· ≠ colon)) else trim line

/-- Take off a pair of equal quotes. -/
def unquote (value : Bytes) : Bytes :=
  if 2 ≤ value.length ∧
      ((value.head? = some quote ∧ value.getLast? = some quote) ∨
        (value.head? = some apostrophe ∧ value.getLast? = some apostrophe)) then
    value.tail.dropLast
  else value

def extractValue (line : Line) : Bytes :=
  if colon ∈ trim line then unquote (trim ((trim line).dropWhile (· ≠ colon)).tail) else []

def isListItem (line : Line) : Bool := (trim line).head? = some dash

def extractListItem (line : Line) : Bytes :=
  if (trim line).head? = some dash then trim (trim line).tail else []

/-- `trim(line).empty() || trim(line)[0] == '#'`. -/
def isNoise (line : Line) : Bool := trim line = [] || (trim line).head? = some hash

/-- `trim(line).empty() || line[0] == '#'`. -/
def isFlushNoise (line : Line) : Bool := trim line = [] || line.head? = some hash

/-! ## The loops below a key -/

/-- A loop that gives every line deeper than `indent` to `f`. -/
def blockTurn {σ : Type} (indent : Nat) (f : σ → Line → σ) : Turn σ Line := fun s line ls =>
  if isFlushNoise line then some (s, ls)
  else if getIndentLevel line ≤ indent then none
  else some (f s line, ls)

def parseBlock {σ : Type} (indent : Nat) (f : σ → Line → σ) (s : σ) (ls : List Line) :
    σ × List Line :=
  run (blockTurn indent f) s ls

/-- `if (is_list_item(line)) { item = extract_list_item(line); if (!item.empty()) ... }`. -/
def pushListItem (items : List Bytes) (line : Line) : List Bytes :=
  if isListItem line then
    if extractListItem line ≠ [] then items ++ [extractListItem line] else items
  else items

def addDependsOn (service : ComposeService) (line : Line) : ComposeService :=
  { service with dependsOn := pushListItem service.dependsOn line }

def addVolume (service : ComposeService) (line : Line) : ComposeService :=
  { service with volumes := pushListItem service.volumes line }

def addEnvironment (service : ComposeService) (line : Line) : ComposeService :=
  if isListItem line then
    let env := extractListItem line
    if (61 : UInt8) ∈ env then
      { service with
        environment :=
          service.environment.insert (env.takeWhile (· ≠ 61)) (env.dropWhile (· ≠ 61)).tail }
    else service
  else
    { service with environment := service.environment.insert (extractKey line) (extractValue line) }

def addNetworkConfig (network : Bytes) (service : ComposeService) (line : Line) : ComposeService :=
  if extractKey line = bytes "ipv4_address" ∨ extractKey line = bytes "ipv6_address" then
    { service with networkStaticIps := service.networkStaticIps.insert network (extractValue line) }
  else service

/-- The loop of `parse_service_networks`, below a key at `networksIndent`. -/
def serviceNetworksTurn (networksIndent : Nat) : Turn ComposeService Line := fun service line ls =>
  if isFlushNoise line then some (service, ls)
  else if getIndentLevel line ≤ networksIndent then none
  else if isListItem line then
    some ({ service with networks := service.networks ++ [extractListItem line] }, ls)
  else
    let network := extractKey line
    some (parseBlock (getIndentLevel line) (addNetworkConfig network)
      { service with networks := service.networks ++ [network] } ls)

def parseServiceNetworks (networksIndent : Nat) (service : ComposeService) (ls : List Line) :
    ComposeService × List Line :=
  run (serviceNetworksTurn networksIndent) service ls

/-! ## Services -/

/-- What the loop of `parse_service` does with a line of the service. -/
def parseServiceKey (indent : Nat) (key value : Bytes) (service : ComposeService)
    (ls : List Line) : ComposeService × List Line :=
  if key = bytes "image" then ({ service with image := value }, ls)
  else if key = bytes "container_name" then ({ service with containerName := value }, ls)
  else if key = bytes "network_mode" then ({ service with networkMode := value }, ls)
  else if key = bytes "restart" then ({ service with restartPolicy := value }, ls)
  else if key = bytes "privileged" then ({ service with privileged := value = bytes "true" }, ls)
  else if key = bytes "depends_on" then parseBlock indent addDependsOn service ls
  else if key = bytes "networks" then parseServiceNetworks indent service ls
  else if key = bytes "volumes" then parseBlock indent addVolume service ls
  else if key = bytes "environment" then parseBlock indent addEnvironment service ls
  else parseBlock indent (fun service _ => service) service ls

/-- The loop of `parse_service`, below a service at `serviceIndent`. -/
def serviceTurn (serviceIndent : Nat) : Turn ComposeService Line := fun service line ls =>
  if isNoise line then some (service, ls)
  else if getIndentLevel line ≤ serviceIndent then none
  else
    some (parseServiceKey (getIndentLevel line) (extractKey line) (extractValue line) service ls)

/-- `parse_service`, the cursor already behind the line of the service. -/
def parseService (serviceIndent : Nat) (service : ComposeService) (ls : List Line) :
    ComposeService × List Line :=
  run (serviceTurn serviceIndent) service ls

/-- The loop below `services:`. -/
def servicesTurn (servicesIndent : Nat) : Turn ComposeFile Line := fun compose line ls =>
  if isFlushNoise line then some (compose, ls)
  else if getIndentLevel line ≤ servicesIndent then none
  else
    let serviceName := extractKey line
    let r := parseService (getIndentLevel line) { ComposeService.init with name := serviceName } ls
    some ({ compose with services := compose.services.insert serviceName r.1 }, r.2)

/-! ## Networks and volumes -/

def addNetworkField (network : ComposeNetwork) (line : Line) : ComposeNetwork :=
  if extractKey line = bytes "driver" then { network with driver := extractValue line }
  else if extractKey line = bytes "external" then
    { network with external := extractValue line = bytes "true" }
  else network

/-- The loop of `parse_networks_section`. -/
def networksTurn (networksIndent : Nat) : Turn ComposeFile Line := fun compose line ls =>
  if isNoise line then some (compose, ls)
  else
    let indent := getIndentLevel line
    if indent ≤ networksIndent then none
    else
      let networkName := extractKey line
      let r :=
        if extractValue line = bytes "external" then (⟨networkName, [], true⟩, ls)
        else parseBlock indent addNetworkField ⟨networkName, [], false⟩ ls
      some ({ compose with networks := compose.networks.insert networkName r.1 }, r.2)

def parseNetworksSection (networksIndent : Nat) (compose : ComposeFile) (ls : List Line) :
    ComposeFile × List Line :=
  run (networksTurn networksIndent) compose ls

def addTopVolume (compose : ComposeFile) (line : Line) : ComposeFile :=
  { compose with volumes := compose.volumes.insert (extractKey line) [] }

/-! ## The file -/

/-- What the loop of `parse` does with a line at the top. -/
def parseTopKey (indent : Nat) (key value : Bytes) (compose : ComposeFile) (ls : List Line) :
    ComposeFile × List Line :=
  if key = bytes "version" then ({ compose with version := value }, ls)
  else if key = bytes "services" then run (servicesTurn indent) compose ls
  else if key = bytes "networks" then parseNetworksSection indent compose ls
  else if key = bytes "volumes" then parseBlock indent addTopVolume compose ls
  else (compose, ls)

/-- The loop of `parse`, which never leaves before the end. -/
def fileTurn : Turn ComposeFile Line := fun compose line ls =>
  if isNoise line then some (compose, ls)
  else some (parseTopKey (getIndentLevel line) (extractKey line) (extractValue line) compose ls)

def parseLines (ls : List Line) : ComposeFile := (run fileTurn ComposeFile.init ls).1

/-- `ComposeParser::parse`; it has no way to fail. -/
def parse (yamlContent : Bytes) : Option ComposeFile := some (parseLines (getLines yamlContent))

/-! ## The loops move forward -/

theorem blockTurn_forward {σ : Type} (indent : Nat) (f : σ → Line → σ) :
    Forward (blockTurn indent f) := by
  intro s l ls s' ls' h
  rw [blockTurn] at h
  split_ifs at h
  · cases h
    exact List.suffix_rfl
  · cases h
    exact List.suffix_rfl

theorem parseBlock_suffix {σ : Type} (indent : Nat) (f : σ → Line → σ) (s : σ) (ls : List Line) :
    (parseBlock indent f s ls).2 <:+ ls :=
  run_suffix (blockTurn_forward indent f) s ls

theorem serviceNetworksTurn_forward (indent : Nat) : Forward (serviceNetworksTurn indent) := by
  intro s l ls s' ls' h
  rw [serviceNetworksTurn] at h
  split_ifs at h
  · cases h
    exact List.suffix_rfl
  · cases h
    exact List.suffix_rfl
  · obtain ⟨-, rfl⟩ := Prod.mk.inj (Option.some.inj h)
    exact parseBlock_suffix _ _ _ _

theorem parseServiceNetworks_suffix (indent : Nat) (service : ComposeService) (ls : List Line) :
    (parseServiceNetworks indent service ls).2 <:+ ls :=
  run_suffix (serviceNetworksTurn_forward indent) service ls

theorem parseServiceKey_suffix (indent : Nat) (key value : Bytes) (service : ComposeService)
    (ls : List Line) : (parseServiceKey indent key value service ls).2 <:+ ls := by
  rw [parseServiceKey]
  split_ifs
  all_goals first
    | exact List.suffix_rfl
    | exact parseBlock_suffix _ _ _ _
    | exact parseServiceNetworks_suffix _ _ _

theorem serviceTurn_forward (indent : Nat) : Forward (serviceTurn indent) := by
  intro s l ls s' ls' h
  rw [serviceTurn] at h
  split_ifs at h
  · cases h
    exact List.suffix_rfl
  · obtain ⟨-, rfl⟩ := Prod.mk.inj (Option.some.inj h)
    exact parseServiceKey_suffix _ _ _ _ _

theorem parseService_suffix (indent : Nat) (service : ComposeService) (ls : List Line) :
    (parseService indent service ls).2 <:+ ls :=
  run_suffix (serviceTurn_forward indent) service ls

theorem servicesTurn_forward (indent : Nat) : Forward (servicesTurn indent) := by
  intro s l ls s' ls' h
  rw [servicesTurn] at h
  split_ifs at h
  · cases h
    exact List.suffix_rfl
  · obtain ⟨-, rfl⟩ := Prod.mk.inj (Option.some.inj h)
    exact parseService_suffix _ _ _

theorem networksTurn_forward (indent : Nat) : Forward (networksTurn indent) := by
  intro s l ls s' ls' h
  rw [networksTurn] at h
  dsimp only at h
  split_ifs at h
  · cases h
    exact List.suffix_rfl
  · cases h
    exact List.suffix_rfl
  · obtain ⟨-, rfl⟩ := Prod.mk.inj (Option.some.inj h)
    exact parseBlock_suffix _ _ _ _

theorem parseNetworksSection_suffix (indent : Nat) (compose : ComposeFile) (ls : List Line) :
    (parseNetworksSection indent compose ls).2 <:+ ls :=
  run_suffix (networksTurn_forward indent) compose ls

theorem parseTopKey_suffix (indent : Nat) (key value : Bytes) (compose : ComposeFile)
    (ls : List Line) : (parseTopKey indent key value compose ls).2 <:+ ls := by
  rw [parseTopKey]
  split_ifs
  · exact List.suffix_rfl
  · exact run_suffix (servicesTurn_forward _) _ _
  · exact parseNetworksSection_suffix _ _ _
  · exact parseBlock_suffix _ _ _ _
  · exact List.suffix_rfl

theorem fileTurn_forward : Forward fileTurn := by
  intro s l ls s' ls' h
  rw [fileTurn] at h
  split_ifs at h
  · cases h
    exact List.suffix_rfl
  · obtain ⟨-, rfl⟩ := Prod.mk.inj (Option.some.inj h)
    exact parseTopKey_suffix _ _ _ _ _

/-! ## The cursor as a position

The same functions as the source has them, with `pos` and the whole of `lines`. Each reads the line
it is called for again.
-/

def parseBlockAt {σ : Type} (fuel : Nat) (lines : List Line) (indent : Nat) (f : σ → Line → σ)
    (s : σ) (pos : Nat) : Except CursorFault (σ × Nat) :=
  whileLoop lines.length
    (fun s pos =>
      (readAt lines pos).bind fun line =>
        if isFlushNoise line then .ok (some (s, pos + 1))
        else if getIndentLevel line ≤ indent then .ok none
        else .ok (some (f s line, pos + 1)))
    fuel s pos

/-- `parse_service_networks`. -/
def parseServiceNetworksAt (fuel : Nat) (lines : List Line) (service : ComposeService)
    (pos : Nat) : Except CursorFault (ComposeService × Nat) :=
  (readAt lines pos).bind fun header =>
    whileLoop lines.length
      (fun service pos =>
        (readAt lines pos).bind fun line =>
          if isFlushNoise line then .ok (some (service, pos + 1))
          else if getIndentLevel line ≤ getIndentLevel header then .ok none
          else if isListItem line then
            .ok (some
              ({ service with networks := service.networks ++ [extractListItem line] }, pos + 1))
          else
            let network := extractKey line
            (parseBlockAt fuel lines (getIndentLevel line) (addNetworkConfig network)
              { service with networks := service.networks ++ [network] } (pos + 1)).map some)
      fuel service (pos + 1)

def parseServiceKeyAt (fuel : Nat) (lines : List Line) (indent : Nat) (key value : Bytes)
    (service : ComposeService) (pos : Nat) : Except CursorFault (ComposeService × Nat) :=
  if key = bytes "image" then .ok ({ service with image := value }, pos + 1)
  else if key = bytes "container_name" then .ok ({ service with containerName := value }, pos + 1)
  else if key = bytes "network_mode" then .ok ({ service with networkMode := value }, pos + 1)
  else if key = bytes "restart" then .ok ({ service with restartPolicy := value }, pos + 1)
  else if key = bytes "privileged" then
    .ok ({ service with privileged := value = bytes "true" }, pos + 1)
  else if key = bytes "depends_on" then
    parseBlockAt fuel lines indent addDependsOn service (pos + 1)
  else if key = bytes "networks" then parseServiceNetworksAt fuel lines service pos
  else if key = bytes "volumes" then parseBlockAt fuel lines indent addVolume service (pos + 1)
  else if key = bytes "environment" then
    parseBlockAt fuel lines indent addEnvironment service (pos + 1)
  else parseBlockAt fuel lines indent (fun service _ => service) service (pos + 1)

/-- `parse_service`. -/
def parseServiceAt (fuel : Nat) (lines : List Line) (serviceName : Bytes)
    (service : ComposeService) (pos : Nat) : Except CursorFault (ComposeService × Nat) :=
  (readAt lines pos).bind fun header =>
    whileLoop lines.length
      (fun service pos =>
        (readAt lines pos).bind fun line =>
          if isNoise line then .ok (some (service, pos + 1))
          else if getIndentLevel line ≤ getIndentLevel header then .ok none
          else
            (parseServiceKeyAt fuel lines (getIndentLevel line) (extractKey line)
              (extractValue line) service pos).map some)
      fuel { service with name := serviceName } (pos + 1)

/-- `parse_networks_section`. -/
def parseNetworksSectionAt (fuel : Nat) (lines : List Line) (compose : ComposeFile) (pos : Nat) :
    Except CursorFault (ComposeFile × Nat) :=
  (readAt lines pos).bind fun header =>
    whileLoop lines.length
      (fun compose pos =>
        (readAt lines pos).bind fun line =>
          if isNoise line then .ok (some (compose, pos + 1))
          else if getIndentLevel line ≤ getIndentLevel header then .ok none
          else
            let networkName := extractKey line
            (if extractValue line = bytes "external" then .ok (⟨networkName, [], true⟩, pos + 1)
              else
                parseBlockAt fuel lines (getIndentLevel line) addNetworkField
                  ⟨networkName, [], false⟩ (pos + 1)).map
              fun r =>
                some ({ compose with networks := compose.networks.insert networkName r.1 }, r.2))
      fuel compose (pos + 1)

/-- The loop below `services:`. -/
def parseServicesAt (fuel : Nat) (lines : List Line) (servicesIndent : Nat)
    (compose : ComposeFile) (pos : Nat) : Except CursorFault (ComposeFile × Nat) :=
  whileLoop lines.length
    (fun compose pos =>
      (readAt lines pos).bind fun line =>
        if isFlushNoise line then .ok (some (compose, pos + 1))
        else if getIndentLevel line ≤ servicesIndent then .ok none
        else
          let serviceName := extractKey line
          (parseServiceAt fuel lines serviceName ComposeService.init pos).map fun r =>
            some ({ compose with services := compose.services.insert serviceName r.1 }, r.2))
    fuel compose pos

/-- The loop of `parse`, from any position. -/
def parseLinesAt (fuel : Nat) (lines : List Line) (compose : ComposeFile) (pos : Nat) :
    Except CursorFault (ComposeFile × Nat) :=
  whileLoop lines.length
    (fun compose pos =>
      (readAt lines pos).bind fun line =>
        if isNoise line then .ok (some (compose, pos + 1))
        else
          let key := extractKey line
          let indent := getIndentLevel line
          (if key = bytes "version" then
              .ok ({ compose with version := extractValue line }, pos + 1)
            else if key = bytes "services" then
              parseServicesAt fuel lines indent compose (pos + 1)
            else if key = bytes "networks" then parseNetworksSectionAt fuel lines compose pos
            else if key = bytes "volumes" then
              parseBlockAt fuel lines indent addTopVolume compose (pos + 1)
            else .ok (compose, pos + 1)).map some)
    fuel compose pos

end Nazg.Docker

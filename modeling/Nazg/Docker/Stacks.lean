import Nazg.Docker.Client
import Nazg.Docker.ComposeFile
import Nazg.Docker.ComposeParser
import Nazg.Lib.Kahn
import Nazg.Lib.Query
import Nazg.Lib.System
import Nazg.Nexus.Schema

/-!
# The orchestrator's dependencies and start order

`add_dependency` and `get_dependencies` on the table of migration 011, and the
order `calculate_start_order` computes from what is stored. Without an ORDER BY
SQLite promises no row order; the query here returns table order, and the
theorems are about every table.

The counters of the sort are a `std::map<std::string, int>`; reading a key that
is missing creates it as zero, which is `degreeOf`.
-/

namespace Nazg.Docker

open Lib Lib.Sqlite Nexus

/-- What `get_dependencies` returns for a row. -/
structure ServiceDependency where
  serviceName : Bytes
  dependsOn : Bytes
  type : Bytes

/-- The row `add_dependency` binds. -/
def dependencyRow (now serverId : Int) (service dependsOn type : Bytes) :
    ServiceDependencyRow where
  serverId := serverId
  serviceName := .ofCStr service
  dependsOnService := .ofCStr dependsOn
  dependencyType := some (.ofCStr type)
  composeFileId := .null
  createdAt := now

/-- `Orchestrator::add_dependency`: refused when the server row is missing. -/
def addDependency (now serverId : Int) (service dependsOn type : Bytes) (db : Db) : Bool × Db :=
  if serverId ∈ db.servers then
    let row := dependencyRow now serverId service dependsOn type
    (true, { db with
      serviceDependencies :=
        db.serviceDependencies.replaceRow (fun r => r.key = row.key) row })
  else (false, db)

/-- The storing loop of `Orchestrator::parse_compose_dependencies`: each
dependency with the time its call reads, and the number stored. -/
def storeDependencies (serverId : Int) (calls : List (Int × DetectedDependency)) (db : Db) :
    Nat × Db :=
  calls.foldl (fun acc call =>
    let r := addDependency call.1 serverId call.2.service call.2.dependsOn call.2.type acc.2
    (if r.1 then acc.1 + 1 else acc.1, r.2)) (0, db)

/-- `Orchestrator::get_dependencies`. -/
def getDependencies (db : Db) (serverId : Int) (service : Bytes) : List ServiceDependency :=
  (db.serviceDependencies.data.filter fun r =>
    r.serverId = serverId ∧ r.serviceName = Text.ofCStr service).map fun r =>
      { serviceName := r.serviceName.bytes
        dependsOn := r.dependsOnService.bytes
        type := (r.dependencyType.map Text.bytes).getD (bytes "soft") }

/-- The types that enter the start order. -/
def isStartOrderType (type : Bytes) : Bool :=
  type = bytes "depends_on" || type = bytes "network_mode" || type = bytes "hard"

/-- The graph: each requested service with the services it must wait for. -/
def dependencyGraph (db : Db) (serverId : Int) (services : List Bytes) :
    OrdMap Bytes (List Bytes) :=
  services.foldl (fun graph service =>
    graph.insert service <|
      ((getDependencies db serverId service).filter fun d => isStartOrderType d.type).map
        (·.dependsOn)) .empty

/-! ## Topological sort -/

/-- `in_degree[node]`, created as zero when missing. -/
def degreeOf (inDegree : OrdMap Bytes Int) (node : Bytes) : Int :=
  (inDegree.find? node).getD 0

/-- The body of the counting loop for one entry of the graph. -/
def countEntry (acc : OrdMap Bytes Unit × OrdMap Bytes Int) (e : Bytes × List Bytes) :
    OrdMap Bytes Unit × OrdMap Bytes Int :=
  let allNodes := acc.1.insert e.1 ()
  let inDegree := if (acc.2.find? e.1).isNone then acc.2.insert e.1 0 else acc.2
  e.2.foldl (fun acc neighbor =>
    (acc.1.insert neighbor (), acc.2.insert neighbor (degreeOf acc.2 neighbor + 1)))
    (allNodes, inDegree)

/-- All nodes of the graph and their counters. -/
def countEdges (graph : OrdMap Bytes (List Bytes)) : OrdMap Bytes Unit × OrdMap Bytes Int :=
  graph.entries.foldl countEntry (.empty, .empty)

/-- One outgoing edge of a popped node. -/
def relaxNeighbor (s : OrdMap Bytes Int × List Bytes) (neighbor : Bytes) :
    OrdMap Bytes Int × List Bytes :=
  let inDegree := s.1.insert neighbor (degreeOf s.1 neighbor - 1)
  (inDegree, if degreeOf inDegree neighbor = 0 then s.2 ++ [neighbor] else s.2)

/-- `while (!queue.empty())`, on fuel: `none` would be a loop still running. -/
def kahnLoop (graph : OrdMap Bytes (List Bytes)) :
    Nat → List Bytes → OrdMap Bytes Int → List Bytes → Option (List Bytes)
  | _, [], _, result => some result
  | 0, _ :: _, _, _ => none
  | fuel + 1, node :: queue, inDegree, result =>
      let next := ((graph.find? node).getD []).foldl relaxNeighbor (inDegree, queue)
      kahnLoop graph fuel next.2 next.1 (result ++ [node])

/-- `Orchestrator::topological_sort`. -/
def topologicalSort (graph : OrdMap Bytes (List Bytes)) : Option (List Bytes) :=
  let counted := countEdges graph
  let queue := counted.1.keys.filter fun node => degreeOf counted.2 node = 0
  kahnLoop graph counted.1.keys.length queue counted.2 []

/-- `Orchestrator::calculate_start_order`. -/
def calculateStartOrder (db : Db) (serverId : Int) (services : List Bytes) :
    Option (List Bytes) :=
  topologicalSort (dependencyGraph db serverId services)

/-!
## Stacks of compose files

`create_stack_from_compose` of the orchestrator with what it calls, and the reading
and deleting of stacks, on the tables of migration 011. The stack row is inserted
first; then each file is opened, parsed, its dependencies and networks stored, its row
of `compose_files` found or made, and the file linked. There is no transaction around
this, and a file that cannot be opened is logged and skipped.

A file's row is looked for twice: by server and path where it may have to be made, and
by path alone in `add_compose_to_stack`, which takes the first row that comes back.

The order of those rows is the engine's, and so is whether a statement is carried out at
all (a locked or full database refuses any of them). Both are part of the `Host`.
-/

/-! ## The tables -/

/-- A row of `docker_stacks`. -/
structure StackRow where
  serverId : Int
  name : Text
  description : Option Text
  priority : Int
  autoRestart : Int
  healthCheckTimeout : Int
  createdAt : Int
  updatedAt : Int

/-- A row of `docker_stack_compose_files`. -/
structure StackComposeFileRow where
  stackId : Int
  composeFileId : Int
  executionOrder : Int
  envFile : Option Text
  composeFlags : Option Text

/-- A row of `docker_network_dependencies`. -/
structure NetworkDependencyRow where
  serverId : Int
  serviceName : Text
  networkName : Text
  staticIp : Option Text
  createdAt : Int

structure StackDb extends Db where
  dockerStacks : Table StackRow
  stackComposeFiles : Table StackComposeFileRow
  networkDependencies : Table NetworkDependencyRow

/-- A database with the given servers and nothing else. -/
def StackDb.fresh (servers : List Int) : StackDb where
  toDb := .fresh servers
  dockerStacks := .empty
  stackComposeFiles := .empty
  networkDependencies := .empty

/-- The columns of `UNIQUE(server_id, name)`. -/
def StackRow.key (r : StackRow) : Int × Text := (r.serverId, r.name)

/-- The columns of `UNIQUE(stack_id, compose_file_id)`. -/
def StackComposeFileRow.key (r : StackComposeFileRow) : Int × Int := (r.stackId, r.composeFileId)

/-- The columns of `UNIQUE(server_id, service_name, network_name)`. -/
def NetworkDependencyRow.key (r : NetworkDependencyRow) : Int × Text × Text :=
  (r.serverId, r.serviceName, r.networkName)

/-! ## What a call meets outside -/

/-- How the engine answers the statements about one file: the order in which it finds rows,
and which of the four statements the link depends on it carries out. -/
structure Engine where
  order : RowOrder
  selectsOwn : Bool
  upserts : Bool
  selectsPath : Bool
  links : Bool

/-- An engine that carries out everything and finds rows in table order. -/
def Engine.sound : Engine := ⟨.byId, true, true, true, true⟩

/-- The files a call can read, the readings of the clock and the engine. `clock i j` is
the `j`-th reading while the `i`-th file is processed. -/
structure Host where
  readFile : Text → Option Bytes
  now : Int
  clock : Nat → Nat → Int
  createsStack : Bool
  engine : Nat → Engine

/-! ## Creating a stack -/

/-- The row `create_stack` binds. -/
def stackRow (now serverId : Int) (name description : Bytes) (priority : Int) : StackRow where
  serverId := serverId
  name := .ofCStr name
  description := some (.ofCStr description)
  priority := priority
  autoRestart := 0
  healthCheckTimeout := 30
  createdAt := now
  updatedAt := now

/-- The INSERT meets its foreign key and its uniqueness key. -/
def acceptsStack (row : StackRow) (db : StackDb) : Bool :=
  decide (row.serverId ∈ db.servers) && !db.dockerStacks.data.any fun r => r.key = row.key

/-- `Orchestrator::create_stack`: the new id, or 0. -/
def createStack (carriedOut : Bool) (now serverId : Int) (name description : Bytes)
    (priority : Int) (db : StackDb) : Int × StackDb :=
  let row := stackRow now serverId name description priority
  if carriedOut && acceptsStack row db then
    let rows := db.dockerStacks.insertRow row
    (rows.lastId, { db with dockerStacks := rows })
  else (0, db)

/-! ## Linking a compose file -/

/-- The row `add_compose_to_stack` binds. -/
def stackComposeFileRow (stackId composeFileId executionOrder : Int) (envFile : Bytes) :
    StackComposeFileRow where
  stackId := stackId
  composeFileId := composeFileId
  executionOrder := executionOrder
  envFile := some (.ofCStr envFile)
  composeFlags := some (.ofCStr (bytes "[]"))

/-- `rows[0].get_int("id")` of a selection of compose files, 0 when there is none. -/
def selectComposeFile (order : RowOrder) (carriedOut : Bool) (p : ComposeFileRow → Bool)
    (db : StackDb) : Int :=
  if carriedOut then
    ((order.arrange (db.composeFiles.rows.filter fun x => p x.2)).head?.map Prod.fst).getD 0
  else 0

/-- `Orchestrator::add_compose_to_stack`. -/
def addComposeToStack (e : Engine) (stackId : Int) (composePath : Bytes) (executionOrder : Int)
    (envFile : Bytes) (db : StackDb) : Bool × StackDb :=
  let composeFileId :=
    selectComposeFile e.order e.selectsPath (fun r => r.filePath = .ofCStr composePath) db
  if composeFileId = 0 then (false, db)
  else if e.links ∧ stackId ∈ db.dockerStacks.ids ∧ composeFileId ∈ db.composeFiles.ids then
    let row := stackComposeFileRow stackId composeFileId executionOrder envFile
    (true, { db with
      stackComposeFiles := db.stackComposeFiles.replaceRow (fun r => r.key = row.key) row })
  else (false, db)

/-! ## Creating a stack from compose files -/

/-- The loop under way: the database, and what `last_insert_id` would return. -/
structure Creation where
  db : StackDb
  lastInsertId : Int

/-- The loop over the dependencies of a file. -/
def Creation.addDependencies (clock : Nat → Int) (serverId : Int)
    (dependencies : List DetectedDependency) (s : Creation) : Creation :=
  let r := storeDependencies serverId (dependencies.zipIdx.map fun d => (clock d.2, d.1)) s.db.toDb
  { db := { s.db with toDb := r.2 }
    lastInsertId := if r.1 = 0 then s.lastInsertId else r.2.serviceDependencies.lastId }

/-- The JSON array of the service names, which are not escaped. -/
def servicesJson (compose : ComposeFile) : Bytes :=
  openBracket :: (((compose.services.keys.map fun name => quote :: (name ++ [quote])).intersperse
    (bytes ",")).flatten ++ [closeBracket])

/-- The file's own row of `compose_files`: the id found, else what the upsert returns. -/
def Creation.registerFile (e : Engine) (now serverId : Int) (composePath : Bytes)
    (compose : ComposeFile) (s : Creation) : Int × Creation :=
  let found := selectComposeFile e.order e.selectsOwn
    (fun r => r.serverId = serverId ∧ r.filePath = .ofCStr composePath) s.db
  if found ≠ 0 then (found, s)
  else
    let r := upsertComposeFile now serverId composePath [] (servicesJson compose) (bytes "[]")
      (bytes "[]") [] s.db.toDb
    if e.upserts ∧ r.1 then
      -- the id is new unless the upsert rewrote a row, which leaves `last_insert_id` alone
      let lastInsertId :=
        if r.2.composeFiles.lastId = s.db.composeFiles.lastId then s.lastInsertId
        else r.2.composeFiles.lastId
      (lastInsertId, ⟨{ s.db with toDb := r.2 }, lastInsertId⟩)
    else (0, s)

/-- The row bound for a static address of a service. -/
def networkDependencyRow (now serverId : Int) (service network ip : Bytes) :
    NetworkDependencyRow where
  serverId := serverId
  serviceName := .ofCStr service
  networkName := .ofCStr network
  staticIp := some (.ofCStr ip)
  createdAt := now

/-- One network dependency, refused when the server row is missing. -/
def Creation.addNetwork (now serverId : Int) (service network ip : Bytes) (s : Creation) :
    Creation :=
  if serverId ∈ s.db.servers then
    let row := networkDependencyRow now serverId service network ip
    let networks := s.db.networkDependencies.replaceRow (fun r => r.key = row.key) row
    ⟨{ s.db with networkDependencies := networks }, networks.lastId⟩
  else s

/-- The static addresses of a file, by service and network. -/
def staticIps (compose : ComposeFile) : List (Bytes × Bytes × Bytes) :=
  compose.services.entries.flatMap fun e => e.2.networkStaticIps.entries.map fun n => (e.1, n)

/-- The loop over the static addresses of a file. -/
def Creation.addNetworks (clock : Nat → Int) (serverId : Int) (compose : ComposeFile)
    (s : Creation) : Creation :=
  (staticIps compose).zipIdx.foldl
    (fun s n => s.addNetwork (clock n.2) serverId n.1.1 n.1.2.1 n.1.2.2) s

/-- The link at the end of a file's turn. -/
def Creation.link (e : Engine) (stackId : Int) (composePath : Bytes) (executionOrder : Int)
    (envFile : Bytes) (s : Creation) : Creation :=
  let r := addComposeToStack e stackId composePath executionOrder envFile s.db
  ⟨r.2, if r.1 then r.2.stackComposeFiles.lastId else s.lastInsertId⟩

/-- `static_cast<int>` of a `size_t`. -/
def toInt (i : Nat) : Int := (i : Int).bmod (2 ^ 32)

/-- One turn of the loop over the compose files. -/
def Creation.addFile (host : Host) (serverId stackId : Int) (i : Nat)
    (composePath envFile : Bytes) (s : Creation) : Creation :=
  match (host.readFile (.ofCStr composePath)).bind parse with
  | none => s
  | some compose =>
      let dependencies := extractDependencies compose
      let n := dependencies.length
      let s := s.addDependencies (host.clock i) serverId dependencies
      let r := s.registerFile (host.engine i) (host.clock i n) serverId composePath compose
      let s := r.2.addNetworks (fun j => host.clock i (n + 1 + j)) serverId compose
      if 0 < r.1 then s.link (host.engine i) stackId composePath (toInt i) envFile else s

/-- The loop over the compose files, from the `i`-th. -/
def Creation.addFiles (host : Host) (serverId stackId : Int) (envFiles : List Bytes) :
    Nat → List Bytes → Creation → Creation
  | _, [], s => s
  | i, path :: paths, s =>
      addFiles host serverId stackId envFiles (i + 1) paths
        (s.addFile host serverId stackId i path (envFiles.getD i []))

/-- `Orchestrator::create_stack_from_compose`. -/
def createStackFromCompose (host : Host) (serverId : Int) (stackName : Bytes)
    (composePaths envFiles : List Bytes) (description : Bytes) (db : StackDb) : Int × StackDb :=
  let r := createStack host.createsStack host.now serverId stackName description 0 db
  if r.1 = 0 then (0, r.2)
  else (r.1, (Creation.addFiles host serverId r.1 envFiles 0 composePaths ⟨r.2, r.1⟩).db)

/-! ## Reading and deleting -/

structure StackProfile where
  id : Int
  serverId : Int
  name : Bytes
  description : Bytes
  priority : Int
  autoRestart : Bool
  healthCheckTimeout : Int
  composeFiles : List Bytes
  envFiles : List Bytes
  deriving DecidableEq

/-- The links of a stack joined with their compose files. -/
def stackFiles (stackId : Int) (db : StackDb) : List (StackComposeFileRow × ComposeFileRow) :=
  (db.stackComposeFiles.data.filter fun l => l.stackId = stackId).filterMap fun l =>
    (db.composeFiles.get? l.composeFileId).map fun f => (l, f)

/-- `Orchestrator::get_stack`. -/
def getStack (order : RowOrder) (serverId : Int) (stackName : Bytes) (db : StackDb) :
    Option StackProfile :=
  let found := db.dockerStacks.rows.filter fun x => x.2.key = (serverId, .ofCStr stackName)
  (order.arrange found).head?.map fun x =>
    let files := order.orderBy (fun lf => lf.1.executionOrder) (stackFiles x.1 db)
    { id := x.1
      serverId := x.2.serverId
      name := x.2.name.bytes
      description := textColumn x.2.description
      priority := x.2.priority
      autoRestart := decide (x.2.autoRestart ≠ (0 : Int))
      healthCheckTimeout := x.2.healthCheckTimeout
      composeFiles := files.map fun lf => lf.2.filePath.bytes
      envFiles := files.map fun lf => textColumn lf.1.envFile }

/-- `Orchestrator::delete_stack`; its links go with it. -/
def deleteStack (stackId : Int) (db : StackDb) : Bool × StackDb :=
  (true, { db with
    dockerStacks := db.dockerStacks.deleteWhere fun i _ => i = stackId
    stackComposeFiles := db.stackComposeFiles.deleteWhere fun _ l => l.stackId = stackId })

/-! ## Runs -/

inductive StackCall where
  | createStackFromCompose (host : Host) (serverId : Int) (stackName : Bytes)
      (composePaths envFiles : List Bytes) (description : Bytes)
  | addComposeToStack (engine : Engine) (stackId : Int) (composePath : Bytes)
      (executionOrder : Int) (envFile : Bytes)
  | deleteStack (stackId : Int)
  | importScan (clock : Nat → Int) (serverId : Int) (payload : Bytes)

/-- The database, and a record of the links the calls of `create_stack_from_compose` made:
the server each was called for and the compose file it linked. -/
structure StackRun where
  db : StackDb
  linked : List (Int × Int)

/-- The compose files linked to a stack. -/
def linkedFiles (stackId : Int) (db : StackDb) : List Int :=
  (db.stackComposeFiles.data.filter fun l => l.stackId = stackId).map (·.composeFileId)

def StackRun.call (s : StackRun) : StackCall → StackRun
  | .createStackFromCompose host serverId stackName composePaths envFiles description =>
      let r := Docker.createStackFromCompose host serverId stackName composePaths envFiles
        description s.db
      -- the stack is new, so what is linked to it now was linked by this call
      { db := r.2
        linked := s.linked ++
          if r.1 = 0 then [] else (linkedFiles r.1 r.2).map fun file => (serverId, file) }
  | .addComposeToStack engine stackId composePath executionOrder envFile =>
      { s with db := (Docker.addComposeToStack engine stackId composePath executionOrder envFile
          s.db).2 }
  | .deleteStack stackId => { s with db := (Docker.deleteStack stackId s.db).2 }
  | .importScan clock serverId payload =>
      { s with db := { s.db with
          toDb := (parseAndStoreScan clock serverId payload .init s.db.toDb).2.2 } }

/-- The runs from a database. -/
def stackSystem (db : StackDb) : System StackRun StackCall where
  init := ⟨db, []⟩
  step s c := some (s.call c)

end Nazg.Docker

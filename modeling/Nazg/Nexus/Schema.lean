import Nazg.Lib.Sqlite

/-!
# The docker tables of the nexus database

The rows of migrations 009 and 011 that the docker modules read and write. A
TEXT column declared NOT NULL is a `Text`, a nullable one an `Option Text`, and
a nullable INTEGER column is a `Value`, because affinity lets a text stay in it.
`server_id` columns only ever receive `to_string` of an id and are integers.

Of `servers` only the ids matter: they are what every `server_id` references.
-/

namespace Nazg.Nexus

open Lib Lib.Sqlite

/-- A row of `containers`. -/
structure ContainerRow where
  serverId : Int
  containerId : Text
  name : Text
  image : Text
  state : Text
  status : Option Text
  created : Value
  ports : Option Text
  volumes : Option Text
  networks : Option Text
  composeFileId : Value
  serviceName : Option Text
  dependsOn : Option Text
  labels : Option Text
  envVars : Option Text
  healthStatus : Option Text
  restartPolicy : Option Text
  lastSeen : Int
  createdAt : Int
  updatedAt : Int

/-- A row of `compose_files`. -/
structure ComposeFileRow where
  serverId : Int
  filePath : Text
  projectName : Option Text
  services : Text
  networks : Option Text
  volumes : Option Text
  fileHash : Option Text
  lastScan : Int
  createdAt : Int
  updatedAt : Int

/-- A row of `docker_images`. -/
structure DockerImageRow where
  serverId : Int
  imageId : Text
  repository : Option Text
  tag : Option Text
  sizeBytes : Value
  created : Value
  lastSeen : Int
  createdAt : Int
  updatedAt : Int

/-- A row of `docker_networks`. -/
structure DockerNetworkRow where
  serverId : Int
  networkId : Text
  name : Text
  driver : Option Text
  scope : Option Text
  ipamConfig : Option Text
  lastSeen : Int
  createdAt : Int
  updatedAt : Int

/-- A row of `docker_volumes`. -/
structure DockerVolumeRow where
  serverId : Int
  volumeName : Text
  driver : Option Text
  mountpoint : Option Text
  labels : Option Text
  lastSeen : Int
  createdAt : Int
  updatedAt : Int

/-- A row of `docker_service_dependencies`. -/
structure ServiceDependencyRow where
  serverId : Int
  serviceName : Text
  dependsOnService : Text
  dependencyType : Option Text
  composeFileId : Value
  createdAt : Int
  deriving DecidableEq

structure Db where
  servers : List Int
  containers : Table ContainerRow
  composeFiles : Table ComposeFileRow
  dockerImages : Table DockerImageRow
  dockerNetworks : Table DockerNetworkRow
  dockerVolumes : Table DockerVolumeRow
  serviceDependencies : Table ServiceDependencyRow

/-- A database with the given servers and nothing else in these tables. -/
def Db.fresh (servers : List Int) : Db where
  servers := servers
  containers := .empty
  composeFiles := .empty
  dockerImages := .empty
  dockerNetworks := .empty
  dockerVolumes := .empty
  serviceDependencies := .empty

/-- The columns of `UNIQUE(server_id, service_name, depends_on_service)`. -/
def ServiceDependencyRow.key (r : ServiceDependencyRow) : Int × Text × Text :=
  (r.serverId, r.serviceName, r.dependsOnService)

end Nazg.Nexus

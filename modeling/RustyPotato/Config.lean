import RustyPotato.Codec

/-!
# The configuration and its checks (`config.rs`)

Left out are the settings that no check reads and that no modelled part of the server uses. Warnings
go to the trace only.
-/

namespace RustyPotato

/-- A Unix path by its components. -/
structure PathBuf where
  absolute : Bool
  components : List String
deriving DecidableEq

namespace PathBuf

/-- The root and the empty path have no parent. -/
def parent (p : PathBuf) : Option PathBuf :=
  if p.components = [] then none else some { p with components := p.components.dropLast }

/-- `as_os_str().is_empty()`. -/
def isEmpty (p : PathBuf) : Bool := !p.absolute && p.components.isEmpty

def display (p : PathBuf) : String :=
  (if p.absolute then "/" else "") ++ "/".intercalate p.components

end PathBuf

/-- What a check asks of the machine: which paths exist, and the tables of Unicode. -/
structure ConfigHost where
  pathExists : PathBuf → Bool
  toLowercase : String → String
  ascii : ∀ s, (∀ c ∈ s.toList, c.toNat < 128) → toLowercase s = toAsciiLowercase s

/-- `RustyPotatoError::ConfigError`. No client ever sees one. -/
structure ConfigError where
  message : String
  configKey : Option String
deriving DecidableEq

structure ServerConfig where
  bindAddress : String := "127.0.0.1"
  maxConnections : Nat := 10000
  workerThreads : Option Nat := none

structure StorageConfig where
  aofEnabled : Bool := true
  aofPath : PathBuf := ⟨false, ["rustypotato.aof"]⟩

structure NetworkConfig where
  readTimeout : Nat := 30
  writeTimeout : Nat := 30
  maxBulkSize : Nat := 512 * 1024 * 1024
  maxArrayLength : Nat := 1048576
  maxBufferSize : Nat := 64 * 1024 * 1024

structure LoggingConfig where
  level : String := "info"
  filePath : Option PathBuf := none

structure Config where
  server : ServerConfig := {}
  storage : StorageConfig := {}
  network : NetworkConfig := {}
  logging : LoggingConfig := {}

/-- What `handle_connection` gives its codec. -/
def NetworkConfig.limits (network : NetworkConfig) : CodecLimits where
  maxBulkSize := network.maxBulkSize
  maxArrayLength := network.maxArrayLength
  maxBufferSize := network.maxBufferSize

/-! ## The checks -/

/-- One field: an error that names it, unless it is good. -/
def checkField (good : Bool) (message key : String) : Except ConfigError Unit :=
  if good then .ok () else .error ⟨message, some key⟩

def ServerConfig.validate (server : ServerConfig) : Except ConfigError Unit := do
  checkField (server.bindAddress != "") "Bind address cannot be empty" "server.bind_address"
  checkField (server.maxConnections != 0) "Max connections must be greater than 0"
    "server.max_connections"
  checkField (server.workerThreads != some 0) "Worker threads must be greater than 0"
    "server.worker_threads"

/-- The key says `persistence`, the section is called `storage`. -/
def StorageConfig.validate (host : ConfigHost) (storage : StorageConfig) :
    Except ConfigError Unit :=
  match storage.aofPath.parent with
  | none => .ok ()
  | some parent => checkField (!storage.aofEnabled || parent.isEmpty || host.pathExists parent)
      ("AOF directory does not exist: " ++ parent.display) "persistence.aof_path"

/-- The limits of the codec are not looked at. -/
def NetworkConfig.validate (network : NetworkConfig) : Except ConfigError Unit := do
  checkField (network.readTimeout != 0) "Read timeout must be greater than 0" "network.read_timeout"
  checkField (network.writeTimeout != 0) "Write timeout must be greater than 0"
    "network.write_timeout"

/-- Here a file in the current directory is no exception. -/
def LoggingConfig.validate (host : ConfigHost) (logging : LoggingConfig) :
    Except ConfigError Unit := do
  checkField (["trace", "debug", "info", "warn", "error"].contains (host.toLowercase logging.level))
    ("Invalid log level: " ++ logging.level ++ ". Must be one of: trace, debug, info, warn, error")
    "logging.level"
  match logging.filePath.bind PathBuf.parent with
  | none => .ok ()
  | some parent =>
    checkField (host.pathExists parent) ("Log directory does not exist: " ++ parent.display)
      "logging.file_path"

def Config.validate (host : ConfigHost) (config : Config) : Except ConfigError Unit := do
  config.server.validate
  config.storage.validate host
  config.network.validate
  config.logging.validate host

/-- A configuration that `load_from_file` hands out. -/
structure ValidConfig (host : ConfigHost) extends Config where
  valid : toConfig.validate host = .ok ()

/-! ## What passes -/

section
variable (host : ConfigHost)

theorem checkField_eq_ok (good : Bool) (message key : String) :
    checkField good message key = .ok () ↔ good = true := by
  unfold checkField
  split_ifs with h <;> simp [h]

theorem bind_eq_ok_unit (a : Except ConfigError Unit) (b : Unit → Except ConfigError Unit) :
    (a >>= b) = .ok () ↔ a = .ok () ∧ b () = .ok () := by
  cases a with
  | error e => simp [bind, Except.bind]
  | ok x => simp [bind, Except.bind]

theorem Config.validate_eq_ok (config : Config) :
    config.validate host = .ok () ↔ config.server.validate = .ok () ∧
      config.storage.validate host = .ok () ∧
      config.network.validate = .ok () ∧ config.logging.validate host = .ok () := by
  simp only [Config.validate, bind_eq_ok_unit]

theorem NetworkConfig.validate_eq_ok (network : NetworkConfig) :
    network.validate = .ok () ↔ 0 < network.readTimeout ∧ 0 < network.writeTimeout := by
  simp only [NetworkConfig.validate, bind_eq_ok_unit, checkField_eq_ok, bne_iff_ne,
    Nat.pos_iff_ne_zero]

/-- Every default passes its own check, on every machine. -/
theorem Config.validate_default : ({} : Config).validate host = .ok () := by
  have hlevel : host.toLowercase "info" = "info" := by
    have hall : ("info".toList.all fun c => decide (c.toNat < 128)) = true := rfl
    rw [host.ascii "info" fun c hc => of_decide_eq_true (List.all_eq_true.mp hall c hc)]
    rfl
  refine (Config.validate_eq_ok host {}).mpr ⟨by decide, rfl, by decide, ?_⟩
  rw [LoggingConfig.validate, hlevel]
  rfl

/-- Any limits pass. -/
def ValidConfig.withLimits (config : ValidConfig host) (limits : CodecLimits) :
    ValidConfig host where
  server := config.server
  storage := config.storage
  network :=
    { config.network with
      maxBulkSize := limits.maxBulkSize
      maxArrayLength := limits.maxArrayLength
      maxBufferSize := limits.maxBufferSize }
  logging := config.logging
  valid := config.valid

def ValidConfig.default : ValidConfig host := ⟨{}, Config.validate_default host⟩

end

/-- For fixed inputs: a machine without directories. -/
def ConfigHost.sample : ConfigHost where
  pathExists _ := false
  toLowercase := toAsciiLowercase
  ascii _ _ := rfl

end RustyPotato

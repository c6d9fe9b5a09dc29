import ReviewRota.Event
import ReviewRota.Field
import ReviewRota.Text.Quoted

/-!
# Settings

The settings of the program and of its database. Every setting has a usual value, which a variable
of the environment replaces and which the caller can override. All of these values are checked in
the same way, and the issues come in the order of the fields.
-/

namespace ReviewRota

abbrev Environment := List (String × String)

namespace Environment

def value? (name : String) (env : Environment) : Option String := env.lookup name

/-- The value of a variable, or the usual value if it is not set. A variable that is set to the empty
text is set. -/
def setting (name : String) (usual : Json) (env : Environment) : Json :=
  match env.value? name with
  | some s => .text s
  | none => usual

def testing (env : Environment) : Bool :=
  ["1", "true", "yes"].contains (Text.lowerCase ((env.value? "TESTING").getD ""))

end Environment

/-- A field whose value is the one that is given, or else a usual one. -/
def Field.configured (name : String) (usual : Json) (read : Json → Checked α) (given : List (Json.Name × Json)) :
    Checked α :=
  (read ((Json.lookup? name given).getD usual)).under (.key name)

structure AppSettings where
  name : String
  version : String
  logLevel : Level
  /-- Records are written as documents. -/
  logJson : Bool
deriving DecidableEq, Repr

namespace AppSettings

/-- The rule about names of levels. -/
def levelRule (s : String) : String :=
  "Invalid log level: " ++ s ++ ". Must be one of [" ++
    String.intercalate ", " (Level.byName.map fun l => Text.quoted l.name) ++ "]"

/-- The level that a document names. -/
def level (j : Json) : Checked Level :=
  (Field.text j).andThen fun s =>
    match Level.ofName? s with
    | some l => .valid l
    | none => Checked.issue (.rule (levelRule s)) j

/-- The settings from an environment and from fields that are given. -/
def read (env : Environment) (given : List (Json.Name × Json)) : Checked AppSettings :=
  AppSettings.mk <$>
    Field.configured "name" (env.setting "APP_NAME" (.text "reviewer-assignment")) Field.text given <*>
    Field.configured "version" (env.setting "APP_VERSION" (.text "0.1.0")) Field.text given <*>
    Field.configured "log_level" (env.setting "LOG_LEVEL" (.text "INFO")) level given <*>
    Field.configured "log_json" (env.setting "LOG_JSON" (.text "true")) Field.truth given

example : (read [] []).toOption = some ⟨"reviewer-assignment", "0.1.0", .info, true⟩ := by decide +kernel

def toJson (s : AppSettings) : Json :=
  .object [("name", .text s.name), ("version", .text s.version), ("log_level", .text s.logLevel.name),
    ("log_json", .bool s.logJson)]

end AppSettings

/-- How a pool of connections is opened. -/
structure PoolOptions where
  url : String
  minSize : Int
  maxSize : Int
  /-- The server does not compile queries while they run. -/
  withoutJit : Bool
  /-- Nothing is ever committed. -/
  forceRollback : Bool
deriving DecidableEq

namespace PoolOptions

/-- Settings of the server as a document. -/
def serverJson (o : PoolOptions) : Json := .object (if o.withoutJit then [("jit", .text "off")] else [])

def toJson (o : PoolOptions) : Json :=
  .object [("url", .text o.url),
    ("options", .object [("min_size", .int o.minSize), ("max_size", .int o.maxSize),
      ("server_settings", o.serverJson)]),
    ("force_rollback", .bool o.forceRollback)]

end PoolOptions

structure DatabaseSettings where
  host : String
  password : String
  user : String
  database : Option String
  port : Int
  minPoolSize : Int
  poolSize : Int
deriving DecidableEq, Repr

namespace DatabaseSettings

/-- The settings in an environment without variables. -/
def usual : DatabaseSettings :=
  ⟨"localhost", "password", "user", some "reviewers", 5432, 1, 20⟩

/-- The name of the database as a document. -/
def databaseJson (s : DatabaseSettings) : Json :=
  match s.database with
  | some name => .text name
  | none => .null

/-- The settings from an environment and from fields that are given. -/
def read (env : Environment) (given : List (Json.Name × Json)) : Checked DatabaseSettings :=
  DatabaseSettings.mk <$>
    Field.configured "host" (env.setting "DB_HOST" (.text usual.host)) Field.text given <*>
    Field.configured "password" (env.setting "DB_PASSWORD" (.text usual.password)) Field.text given <*>
    Field.configured "user" (env.setting "DB_USER" (.text usual.user)) Field.text given <*>
    Field.configured "database" (env.setting "DB_NAME" usual.databaseJson) (Field.optional Field.text) given <*>
    Field.configured "port" (env.setting "DB_PORT" (.int usual.port)) Field.integer given <*>
    Field.configured "min_pool_size" (env.setting "DB_MIN_POOL_SIZE" (.int usual.minPoolSize)) Field.integer given <*>
    Field.configured "pool_size" (env.setting "DB_POOL_SIZE" (.int usual.poolSize)) Field.integer given

def toJson (s : DatabaseSettings) : Json :=
  .object [("host", .text s.host), ("password", .text s.password), ("user", .text s.user),
    ("database", s.databaseJson), ("port", .int s.port),
    ("min_pool_size", .int s.minPoolSize), ("pool_size", .int s.poolSize)]

/-- The address of the database. The parts stand in it as they are; a missing name of the database is
shown as the word `None`. -/
def url (s : DatabaseSettings) : String :=
  "postgresql://" ++ s.user ++ ":" ++ s.password ++ "@" ++ s.host ++ ":" ++ toString s.port ++ "/" ++
    s.database.getD "None" ++ "?sslmode=disable"

example : (read [] []).toOption = some usual := by decide +kernel

/-- The options of the pool of connections. -/
def pool (s : DatabaseSettings) (withoutJit forceRollback : Bool) : PoolOptions :=
  ⟨s.url, s.minPoolSize, s.poolSize, withoutJit, forceRollback⟩

end DatabaseSettings

end ReviewRota

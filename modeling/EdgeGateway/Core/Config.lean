import EdgeGateway.Basic.Numerals

set_option autoImplicit false

/-! # The configuration file and its hot reload

`ConfigManager::parseFile` works line by line on top of the defaults: both ends of a line are
trimmed, the first `=` separates key and value, and the first `#` of a value begins a comment.
What is no assignment to a known key has no effect, but a known integer must be one to its end.
`reload` publishes a snapshot only after the whole file was parsed and validated, with the two
ports of `init`. What is written to the log is left out.
-/

namespace EdgeGateway

/-! ## Values -/

/-- The most data points that the configuration or a request may ask for. -/
def kMaxReportN : Int := 1000

structure Config where
  logLevel : Int := 1
  idleTimeout : Int := 5
  reportN : Int := 10
  serialPath : List UInt8 := bytes "/tmp/ttyV0"
  serialBaud : Int := 115200
  mqttHost : List UInt8 := bytes "localhost"
  dbPath : List UInt8 := bytes "/tmp/gateway.db"
  mqttKeepalive : Int := 60
  mqttPort : Int := 1883
  httpPort : Int := 8888
  deriving DecidableEq

/-- `trim` takes spaces, tabs, CR and LF off both ends. -/
def trim (s : List UInt8) : List UInt8 := trimBlanks s

/-- `std::stoi` with its second argument: the value, and where `strtol` stopped. -/
def stoiPos (s : List UInt8) : Option (Int × Nat) := (stoi s).map fun v => (v, (strtol s).2)

def invalidInt (key val : List UInt8) : List UInt8 :=
  bytes "config '" ++ key ++ bytes "' invalid int value: '" ++ val ++ bytes "'"

def toInt (val key : List UInt8) : Except (List UInt8) Int :=
  match stoiPos val with
  | none => .error (invalidInt key val)
  | some (v, pos) => if pos ≠ val.length then .error (invalidInt key val) else .ok v

/-- **Complete conversion**: the text is a number to its end, white space in front of it allowed,
and the number is an `int`. -/
theorem toInt_eq_ok {val key : List UInt8} {v : Int} :
    toInt val key = .ok v ↔
      (∃ blanks, SignedDigits blanks val v) ∧ -2147483648 ≤ v ∧ v ≤ 2147483647 := by
  constructor
  · intro h
    simp only [toInt, stoiPos] at h
    cases hstoi : stoi val with
    | none =>
        rw [hstoi] at h
        cases h
    | some w =>
        simp only [hstoi, Option.map_some] at h
        split_ifs at h with hpos
        obtain rfl := Except.ok.inj h
        have hne : val ≠ [] := by
          rintro rfl
          rw [show stoi [] = none by decide] at hstoi
          cases hstoi
        have hfull : strtol val = ((strtol val).1, val.length) :=
          Prod.ext rfl (not_not.mp hpos)
        obtain ⟨blanks, n, hdigits, -⟩ := (strtol_full hne _).mp hfull
        rw [stoi_signedDigits hdigits] at hstoi
        split_ifs at hstoi with hrange
        obtain rfl := Option.some.inj hstoi
        exact ⟨⟨blanks, hdigits⟩, by omega, by omega⟩
  · rintro ⟨⟨blanks, hdigits⟩, hlo, hhi⟩
    have hstoi : stoi val = some v := by
      rw [stoi_signedDigits hdigits, if_neg (by omega)]
    have hne : val ≠ [] := by
      rintro rfl
      rw [show stoi [] = none by decide] at hstoi
      cases hstoi
    have hpos : (strtol val).2 = val.length :=
      congrArg Prod.snd ((strtol_full hne _).mpr ⟨blanks, v, hdigits, rfl⟩)
    simp only [toInt, stoiPos, hstoi, Option.map_some]
    exact if_neg (not_not.mpr hpos)

/-! ## Parsing -/

/-- `std::getline` to the end of the file; a last line may lack its newline. -/
def getLines : List UInt8 → List (List UInt8)
  | [] => []
  | c :: rest =>
      if c = 10 then [] :: getLines rest
      else
        match getLines rest with
        | [] => [[c]]
        | line :: lines => (c :: line) :: lines

/-- The key and the value of a line, if it is neither empty nor a comment and has an `=`. -/
def splitLine (line : List UInt8) : Option (List UInt8 × List UInt8) :=
  let t := trim line
  if t = [] ∨ t.head? = some 35 then none
  else if 61 ∉ t then none
  else
    let key := trim (t.takeWhile (· ≠ 61))
    let val := trim (t.dropWhile (· ≠ 61)).tail
    some (key, if 35 ∈ val then trim (val.takeWhile (· ≠ 35)) else val)

/-- The assignment to the field that `key` names. -/
def assign (c : Config) (key val : List UInt8) : Except (List UInt8) Config :=
  if key = bytes "log_level" then (toInt val key).map fun v => { c with logLevel := v }
  else if key = bytes "idle_timeout" then (toInt val key).map fun v => { c with idleTimeout := v }
  else if key = bytes "report_n" then (toInt val key).map fun v => { c with reportN := v }
  else if key = bytes "mqtt_keepalive" then
    (toInt val key).map fun v => { c with mqttKeepalive := v }
  else if key = bytes "serial_baud" then (toInt val key).map fun v => { c with serialBaud := v }
  else if key = bytes "mqtt_port" then (toInt val key).map fun v => { c with mqttPort := v }
  else if key = bytes "http_port" then (toInt val key).map fun v => { c with httpPort := v }
  else if key = bytes "serial_path" then .ok { c with serialPath := val }
  else if key = bytes "mqtt_host" then .ok { c with mqttHost := val }
  else if key = bytes "db_path" then .ok { c with dbPath := val }
  else .ok c

def applyLine (c : Config) (line : List UInt8) : Except (List UInt8) Config :=
  match splitLine line with
  | none => .ok c
  | some (key, val) => assign c key val

/-- `file` is the content of the file at `path`, if it can be opened. -/
def parseFile (path : List UInt8) (file : Option (List UInt8)) : Except (List UInt8) Config :=
  match file with
  | none => .error (bytes "cannot open config file: " ++ path)
  | some text => (getLines text).foldlM applyLine {}

/-! ## Validation -/

def checkPort (p : Int) : Bool := ¬ (p < 1 ∨ p > 65535)

def checkPath (p : List UInt8) : Bool := p ≠ []

def validate (c : Config) : Bool :=
  checkPort c.mqttPort ∧ checkPort c.httpPort ∧ ¬ c.idleTimeout ≤ 0 ∧
    ¬ (c.reportN ≤ 0 ∨ c.reportN > kMaxReportN) ∧ ¬ c.mqttKeepalive < 0 ∧ ¬ c.serialBaud ≤ 0 ∧
    checkPath c.serialPath ∧ checkPath c.dbPath ∧ checkPath c.mqttHost

/-! ## The manager -/

/-- The state from `init` on. -/
structure ConfigManager where
  path : List UInt8
  startup : Config
  current : Config
  deriving DecidableEq

structure ReloadResult where
  ok : Bool := false
  serialRebuildRequired : Bool := false
  mqttRebuildRequired : Bool := false
  dbSwapRequired : Bool := false
  deriving DecidableEq

def ConfigManager.init (path : List UInt8) (file : Option (List UInt8)) :
    Except (List UInt8) ConfigManager := do
  let cfg ← parseFile path file
  if validate cfg then .ok ⟨path, cfg, cfg⟩
  else
    .error (bytes "config validation failed: " ++ path ++
      bytes " (具体哪一项见上面的 WARN 日志)")

def ConfigManager.reload (m : ConfigManager) (file : Option (List UInt8)) :
    ReloadResult × ConfigManager :=
  match parseFile m.path file with
  | .error _ => ({}, m)
  | .ok fresh =>
      if validate fresh then
        let fresh := { fresh with mqttPort := m.startup.mqttPort, httpPort := m.startup.httpPort }
        let old := m.current
        ({ ok := true
           serialRebuildRequired := old.serialPath ≠ fresh.serialPath ∨
             old.serialBaud ≠ fresh.serialBaud
           mqttRebuildRequired := old.mqttHost ≠ fresh.mqttHost ∨
             old.mqttKeepalive ≠ fresh.mqttKeepalive
           dbSwapRequired := old.dbPath ≠ fresh.dbPath }, { m with current := fresh })
      else ({}, m)

/-- The manager after a reload of each of the `files`, in order. -/
def ConfigManager.reloads (m : ConfigManager) (files : List (Option (List UInt8))) :
    ConfigManager :=
  files.foldl (fun m file => (m.reload file).2) m

/-! ## Keys -/

/-- The keys with integer values, and their fields. -/
inductive IntKey
  | logLevel
  | idleTimeout
  | reportN
  | mqttKeepalive
  | serialBaud
  | mqttPort
  | httpPort
  deriving DecidableEq

/-- The keys whose values are taken as they are. -/
inductive StrKey
  | serialPath
  | mqttHost
  | dbPath
  deriving DecidableEq

def IntKey.name : IntKey → List UInt8
  | .logLevel => bytes "log_level"
  | .idleTimeout => bytes "idle_timeout"
  | .reportN => bytes "report_n"
  | .mqttKeepalive => bytes "mqtt_keepalive"
  | .serialBaud => bytes "serial_baud"
  | .mqttPort => bytes "mqtt_port"
  | .httpPort => bytes "http_port"

def StrKey.name : StrKey → List UInt8
  | .serialPath => bytes "serial_path"
  | .mqttHost => bytes "mqtt_host"
  | .dbPath => bytes "db_path"

namespace Config

def getInt (c : Config) : IntKey → Int
  | .logLevel => c.logLevel
  | .idleTimeout => c.idleTimeout
  | .reportN => c.reportN
  | .mqttKeepalive => c.mqttKeepalive
  | .serialBaud => c.serialBaud
  | .mqttPort => c.mqttPort
  | .httpPort => c.httpPort

def setInt (c : Config) (v : Int) : IntKey → Config
  | .logLevel => { c with logLevel := v }
  | .idleTimeout => { c with idleTimeout := v }
  | .reportN => { c with reportN := v }
  | .mqttKeepalive => { c with mqttKeepalive := v }
  | .serialBaud => { c with serialBaud := v }
  | .mqttPort => { c with mqttPort := v }
  | .httpPort => { c with httpPort := v }

def getStr (c : Config) : StrKey → List UInt8
  | .serialPath => c.serialPath
  | .mqttHost => c.mqttHost
  | .dbPath => c.dbPath

def setStr (c : Config) (s : List UInt8) : StrKey → Config
  | .serialPath => { c with serialPath := s }
  | .mqttHost => { c with mqttHost := s }
  | .dbPath => { c with dbPath := s }

end Config

theorem assign_int (c : Config) (k : IntKey) (val : List UInt8) :
    assign c k.name val = (toInt val k.name).map fun v => c.setInt v k := by
  cases k <;> rfl

theorem assign_str (c : Config) (k : StrKey) (val : List UInt8) :
    assign c k.name val = .ok (c.setStr val k) := by
  cases k <;> rfl

theorem assign_unknown (c : Config) {key : List UInt8} (hint : ∀ k : IntKey, key ≠ k.name)
    (hstr : ∀ k : StrKey, key ≠ k.name) (val : List UInt8) : assign c key val = .ok c := by
  refine (if_neg (hint .logLevel)).trans ?_
  refine (if_neg (hint .idleTimeout)).trans ?_
  refine (if_neg (hint .reportN)).trans ?_
  refine (if_neg (hint .mqttKeepalive)).trans ?_
  refine (if_neg (hint .serialBaud)).trans ?_
  refine (if_neg (hint .mqttPort)).trans ?_
  refine (if_neg (hint .httpPort)).trans ?_
  refine (if_neg (hstr .serialPath)).trans ?_
  refine (if_neg (hstr .mqttHost)).trans ?_
  exact if_neg (hstr .dbPath)

end EdgeGateway

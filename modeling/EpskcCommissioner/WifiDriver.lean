import Mathlib.Data.Nat.Notation

/-! The station driver as `main.c` uses it: a configuration in RAM, one in flash
and a storage mode. Every call takes the error code the driver returns; a failed
call changes nothing, and set_config reaches flash exactly in FLASH mode. -/
namespace EpskcCommissioner.WifiDriver

/- `esp_err_t`; zero is success. -/
abbrev EspErr := Int
def espOk : EspErr := 0
def espFail : EspErr := -1
def espErrInvalidArg : EspErr := 0x102

/- A C string argument: its bytes before the terminating NUL. -/
structure CString where
  bytes : List UInt8
  noNul : 0 ∉ bytes
  deriving DecidableEq

/- `wifi_config_t`. The driver's fields other than the two that the firmware
writes (bssid, channel, threshold, ...) are one number, zero when cleared. -/
structure WifiConfig where
  ssid : Vector UInt8 32
  password : Vector UInt8 64
  rest : Nat
  deriving DecidableEq

def WifiConfig.empty : WifiConfig := ⟨Vector.replicate 32 0, Vector.replicate 64 0, 0⟩

def WifiConfig.hasSsid (c : WifiConfig) : Bool := c.ssid[0] != 0

/- memcpy of a string without its NUL into a zeroed fixed-width field. -/
def field (n : Nat) (s : CString) : Vector UInt8 n := Vector.ofFn (fun i => s.bytes.getD i 0)

def WifiConfig.of (ssid pass : CString) : WifiConfig := ⟨field 32 ssid, field 64 pass, 0⟩

def home : CString := ⟨[104],by decide⟩
def cabin : CString := ⟨[99],by decide⟩
def secret : CString := ⟨[115],by decide⟩

theorem emptyHasNoSsid : WifiConfig.empty.hasSsid = false := by decide

inductive Storage where
  | ram | flash
  deriving DecidableEq, Repr

/- `generation` counts the accepted set_config calls. It tells connections made
under different configurations apart; no modelled function reads it. -/
structure Driver where
  storage : Storage
  current : WifiConfig
  persisted : WifiConfig
  generation : Nat
  deriving DecidableEq

def espWifiSetStorage (which : Storage) (err : EspErr) (d : Driver) : Driver :=
  if err = espOk then {d with storage := which} else d

def espWifiSetConfig (cfg : WifiConfig) (err : EspErr) (d : Driver) : Driver :=
  if err = espOk then
    {d with current := cfg, generation := d.generation + 1,
            persisted := if d.storage = .flash then cfg else d.persisted}
  else d

@[simp] theorem storagePersisted (which err d) :
    (espWifiSetStorage which err d).persisted = d.persisted := by
  unfold espWifiSetStorage
  split <;> rfl

@[simp] theorem storageCurrent (which err d) :
    (espWifiSetStorage which err d).current = d.current := by
  unfold espWifiSetStorage
  split <;> rfl

@[simp] theorem storageGeneration (which err d) :
    (espWifiSetStorage which err d).generation = d.generation := by
  unfold espWifiSetStorage
  split <;> rfl

@[simp] theorem configCurrent (cfg d) : (espWifiSetConfig cfg espOk d).current = cfg := by
  rw [espWifiSetConfig, if_pos rfl]

@[simp] theorem configStorage (cfg err d) :
    (espWifiSetConfig cfg err d).storage = d.storage := by
  unfold espWifiSetConfig
  split <;> rfl

theorem configRejected {cfg err d} (failed : err ≠ espOk) : espWifiSetConfig cfg err d = d :=
  if_neg failed

theorem configTrial {cfg err d} (trial : d.storage = .ram) :
    (espWifiSetConfig cfg err d).persisted = d.persisted := by
  unfold espWifiSetConfig
  split
  · simp [trial]
  · rfl

theorem configCommit {cfg d} (flash : d.storage = .flash) :
    (espWifiSetConfig cfg espOk d).persisted = cfg := by
  simp [espWifiSetConfig,flash]

/- A connection the driver started, with the configuration it used. -/
structure Attempt where
  generation : Nat
  config : WifiConfig
  deriving DecidableEq

def Driver.attempt (d : Driver) : Attempt := ⟨d.generation,d.current⟩

end EpskcCommissioner.WifiDriver

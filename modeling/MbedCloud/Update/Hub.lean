import MbedCloud.Lib.Trace
import MbedCloud.Update.Uri

/-!
# The update client hub

The state machine of `update_client_hub_state_machine.c`, with the event handlers and the error handler. The
firmware manager, the manifest manager, the source manager and the control center are outside: they answer
calls, and deliver events with the data they have written. What the hub does is recorded in a log.

Entering a state runs its code and may set a next state; `setState` goes on until the state is its own next
state.
-/

namespace MbedCloud.Update.Machine

open Lib

/-! ## Data -/

inductive HubState where
  | uninitialized
  | initialized
  | getActiveFirmwareDetails
  | reportActiveHash
  | reportActiveVersion
  | getInstallerDetails
  | reportInstallerDetails
  | idle
  | notified
  | certStored
  | manifestFetched
  | manifestComplete
  | checkVersion
  | prepareFirmwareSetup
  | requestDownloadAuthorization
  | waitForDownloadAuthorization
  | downloadAuthorized
  | setupFirmware
  | fetchFirstFragment
  | storeAndDownload
  | waitForStorage
  | waitForNetwork
  | storeLastFragment
  | finalizeStorage
  | storageFinalized
  | waitForInstallAuthorization
  | installAuthorized
  | activateFirmware
  | reboot
  | errorFirmwareManager
  | errorManifestManager
  | errorSourceManager
  | errorControlCenter
  | errorUnknown
  deriving DecidableEq

/-- The two arrays of the double buffer. -/
inductive Memory where
  | message
  | message2
  deriving DecidableEq

/-- Half of `ARM_UC_BUFFER_SIZE`. -/
def bufferSizeMax : Nat := 512

def manifestBufferSize : Nat := 640

/-- Data that fits a buffer. -/
abbrev Chunk := { bytes : Bytes // bytes.length ≤ bufferSizeMax }

/-- `arm_uc_buffer_t`: the bytes up to `size`. -/
structure Buffer where
  ptr : Memory
  bytes : Bytes
  deriving DecidableEq

def Buffer.size (b : Buffer) : Nat := b.bytes.length

inductive CipherMode where
  | none
  | psk
  | certCipherkey
  | certKeytable
  | other (code : Nat)
  deriving DecidableEq

/-- `manifest_firmware_info_t`. -/
structure Info where
  timestamp : Nat
  size : Nat
  hash : Bytes
  uri : Bytes
  strgId : Bytes
  cipherMode : CipherMode
  initVector : Bytes
  cipherKey : Bytes
  deriving DecidableEq

/-- `arm_uc_firmware_details_t`. -/
structure Details where
  version : Nat
  size : Nat
  hash : Bytes
  deriving DecidableEq

/-- `arm_uc_installer_details_t`. -/
structure InstallerDetails where
  armHash : Bytes
  oemHash : Bytes
  deriving DecidableEq

inductive Mode where
  | uninit
  | noneSha256
  | aesCtr128Sha256
  deriving DecidableEq

/-- `arm_uc_hub_firmware_config`. The hash, the key and the vector are pointers into the firmware information
and to the plain key: they are set or not. -/
structure Config where
  mode : Mode
  key : Bool
  iv : Bool
  hash : Bool
  packageId : Nat
  packageSize : Nat
  deriving DecidableEq

/-- What is found behind the pointers of a configuration. -/
structure Setup where
  mode : Mode
  key : Option Bytes
  iv : Option Bytes
  hash : Option Bytes
  packageId : Nat
  packageSize : Nat
  deriving DecidableEq

/-! ## Errors -/

/-- The codes that the error handler knows, those that the hub also uses, and all others. -/
inductive HubError where
  | certificateNotFound
  | firmwareWrite
  | firmwareInvalidParameter
  | firmwareInvalidHash
  | manifestNullPtr
  | manifestGuidVendor
  | manifestGuidDevclass
  | manifestGuidDevice
  | manifestCertInvalid
  | manifestInvalidSignature
  | sourceInvalidParameter
  | rollbackProtection
  | firmwareActivate
  | manifestNoManifest
  | manifestInvalidState
  | manifestBadEvent
  | invalidParameter
  | other (code : Int)
  deriving DecidableEq

/-- For the user application. -/
inductive Warning where
  | unknown
  | certificateNotFound
  | writeToStorage
  | invalidHash
  | identityNotFound
  | vendorMismatch
  | classMismatch
  | deviceMismatch
  | certificateInvalid
  | signatureInvalid
  | uriNotFound
  | rollbackProtection
  deriving DecidableEq

inductive MonitorResult where
  | errorType
  | errorStorage
  | errorHash
  | errorUri
  deriving DecidableEq

inductive MonitorState where
  | idle
  | downloading
  | downloaded
  | updating
  deriving DecidableEq

def HubError.external : HubError → Warning
  | .certificateNotFound => .certificateNotFound
  | .firmwareWrite => .writeToStorage
  | .firmwareInvalidParameter => .writeToStorage
  | .firmwareInvalidHash => .invalidHash
  | .manifestNullPtr => .identityNotFound
  | .manifestGuidVendor => .vendorMismatch
  | .manifestGuidDevclass => .classMismatch
  | .manifestGuidDevice => .deviceMismatch
  | .manifestCertInvalid => .certificateInvalid
  | .manifestInvalidSignature => .signatureInvalid
  | .sourceInvalidParameter => .uriNotFound
  | .rollbackProtection => .rollbackProtection
  | _ => .unknown

def HubError.monitor : HubError → MonitorResult
  | .firmwareWrite => .errorStorage
  | .firmwareInvalidParameter => .errorStorage
  | .firmwareInvalidHash => .errorHash
  | .sourceInvalidParameter => .errorUri
  | _ => .errorType

/-! ## Events and calls -/

inductive FirmwareManagerEvent where
  | prepareDone
  | writeDone
  | finalizeDone
  | activateDone
  | getActiveFirmwareDetailsDone (details : Details)
  | getInstallerDetailsDone (details : InstallerDetails)
  | writeError
  | finalizeError
  | finalizeInvalidHashError
  | activateError
  | getActiveFirmwareDetailsError
  | getInstallerDetailsError
  | initializeDone
  | getFirmwareDetailsDone
  | initializeError
  | prepareError
  | getFirmwareDetailsError
  | other (code : Nat)
  deriving DecidableEq

inductive ManifestManagerEvent where
  /-- The code is that of `ARM_UC_mmGetError`. -/
  | error (code : HubError)
  | none
  | needDep
  | needFw
  | done
  | other (code : Nat)
  deriving DecidableEq

inductive SourceManagerEvent where
  | notification
  | manifest (bytes : Chunk)
  | firmware (bytes : Chunk)
  | keytable
  | error
  | other (code : Nat)
  deriving DecidableEq

inductive ControlCenterEvent where
  | authorizeDownload
  | authorizeInstall
  | monitorSendDone
  | other (code : Nat)
  deriving DecidableEq

inductive Event where
  | firmwareManager (event : FirmwareManagerEvent)
  | manifestManager (event : ManifestManagerEvent)
  | sourceManager (event : SourceManagerEvent)
  | controlCenter (event : ControlCenterEvent)
  deriving DecidableEq

inductive Request where
  | download
  | install
  deriving DecidableEq

/-- What the hub calls. The setup that goes with `activate` is what is found in the configuration at that
moment; the function itself is only given the package id. -/
inductive Call where
  | initDone
  | getActiveFirmwareDetails
  | reportName (hash : Bytes)
  | reportVersion (version : Nat)
  | getInstallerDetails
  | reportBootloaderHash (hash : Bytes)
  | reportOemBootloaderHash (hash : Bytes)
  | reportState (state : MonitorState)
  | getManifest (ptr : Memory)
  | mmInsert (manifest : Bytes)
  | mmFetchFirmwareInfo
  | preSharedKey (key : Option Bytes)
  | getAuthorization (request : Request)
  | prepare (setup : Setup) (details : Details)
  | getFirmwareFragment (ptr : Memory) (offset : Nat)
  | write (buffer : Buffer)
  | reportProgress (progress total : Nat)
  | finalize
  | activate (packageId : Nat) (setup : Setup)
  | reboot
  | errorCallback (warning : Warning)
  | reportUpdateResult (result : MonitorResult)
  deriving DecidableEq

inductive Entry where
  /-- An event, and the state in which it found the hub. -/
  | event (state : HubState) (event : Event)
  | enter (state : HubState)
  /-- The comparison of the timestamp of a manifest with the active version. -/
  | compare (timestamp version : Nat)
  | call (call : Call)
  deriving DecidableEq

inductive Retval where
  | none
  | pending
  | error
  deriving DecidableEq

/-- What the other modules answer while an event is handled: each function is called at most once. -/
structure Answers where
  getActiveFirmwareDetails : Retval
  getInstallerDetails : Retval
  getManifest : Retval
  mmInsert : Retval
  mmFetchFirmwareInfo : Retval
  preSharedKey : Option Bytes
  prepare : Retval
  getFirmwareFragment : Retval
  write : Retval
  finalize : Retval
  deriving DecidableEq

/-- What the manifest manager reads from a manifest, the address of the text of a URI, and the decryption of a key. -/
structure Env where
  firmwareInfo : Bytes → Info
  uriBase : Nat
  decrypt : Bytes → Bytes → Bytes

/-- `arm_uc_str2uri` with `uri_buffer`; what an earlier call left in the buffer is written over before it is read. A text that
is read outside of its bounds counts as one that cannot be parsed. -/
@[irreducible] def Env.str2uri (env : Env) (text : Bytes) : Option Str2uri.Uri :=
  match Str2uri.str2uri env.uriBase text ⟨List.replicate 256 0, 0, .none, 0, none, none⟩ with
  | .ok (true, uri) => some uri
  | _ => none

structure Hub where
  state : HubState
  front : Buffer
  back : Buffer
  active : Details
  installer : InstallerDetails
  firmwareOffset : Nat
  config : Config
  plainKey : Bytes
  /-- The manifest that is saved for the manifest manager. -/
  manifest : Bytes
  fwinfo : Info
  uri : Option Str2uri.Uri
  log : List Entry

def initial : Hub where
  state := .uninitialized
  front := ⟨.message, []⟩
  back := ⟨.message2, []⟩
  active := ⟨0, 0, []⟩
  installer := ⟨[], []⟩
  firmwareOffset := 0
  config := ⟨.uninit, false, false, false, 0, 0⟩
  plainKey := []
  manifest := []
  fwinfo := ⟨0, 0, [], [], [], .none, [], []⟩
  uri := none
  log := []

namespace Hub

def record (h : Hub) (e : Entry) : Hub := { h with log := h.log ++ [e] }

def call (h : Hub) (c : Call) : Hub := h.record (.call c)

/-- The configuration with what its pointers point to. -/
def setup (h : Hub) : Setup where
  mode := h.config.mode
  key := if h.config.key then some h.plainKey else none
  iv := if h.config.iv then some h.fwinfo.initVector else none
  hash := if h.config.hash then some h.fwinfo.hash else none
  packageId := h.config.packageId
  packageSize := h.config.packageSize

end Hub

/-! ## States -/

/-- The text `default`. -/
def defaultText : Bytes := [100, 101, 102, 97, 117, 108, 116]

def packageIdRun (strgId : Bytes) : Exec Fault Nat :=
  if strgId = [] then pure 0
  else do
    let location ← strnstrn strgId 0 strgId.length defaultText
    if location ≠ 4294967295 then pure 0
    else do
      let (id, _) ← str2uint32 strgId 0 strgId.length
      pure id

def packageId (strgId : Bytes) : Nat :=
  match packageIdRun strgId with
  | .ok id => id
  | .error _ => 0

/-- `HANDLE_ERROR`, at the end of a state's code. -/
def handleError (retval : Retval) (state : HubState) : HubState := if retval ≠ .none then .idle else state

/-- `HANDLE_ERROR` for a function of the manifest manager. -/
def handlePending (retval : Retval) (state : HubState) : HubState := if retval ≠ .pending then handleError retval state else state

/-- The handler reports the error, and sets the state to `ARM_UC_HUB_STATE_ERROR_UNKNOWN`. -/
def errorHandler (setErrorUnknown : Hub → Hub) (error : HubError) (h : Hub) : Hub :=
  setErrorUnknown ((h.call (.errorCallback error.external)).call (.reportUpdateResult error.monitor))

/-- The cryptography mode. The next state that `HANDLE_ERROR` sets is the second component: its `break` only
leaves this switch. -/
def setCipher (env : Env) (a : Answers) (state : HubState) (h : Hub) : Hub × HubState :=
  match h.fwinfo.cipherMode with
  | .none => ({ h with config := { h.config with mode := .noneSha256 } }, state)
  | .psk =>
    let h := h.call (.preSharedKey a.preSharedKey)
    match a.preSharedKey with
    | none => (h, .idle)
    | some key =>
      ({ h with
        plainKey := env.decrypt key h.fwinfo.cipherKey
        config := { h.config with mode := .aesCtr128Sha256, key := true, iv := true } }, state)
  | .certCipherkey => (h, .idle)
  | .certKeytable => (h, .idle)
  | .other _ => (h, .idle)

/-- The code of `ARM_UC_HUB_STATE_PREPARE_FIRMWARE_SETUP`. -/
def prepareSetup (env : Env) (a : Answers) (setErrorUnknown : Hub → Hub) (h : Hub) : Hub × HubState :=
  let h := { h with config := { h.config with hash := true } }
  match env.str2uri h.fwinfo.uri with
  | none =>
    -- The text is cut off for the trace.
    let h := { h with fwinfo := { h.fwinfo with uri := h.fwinfo.uri.set (h.fwinfo.uri.length - 1) 0 } }
    (errorHandler setErrorUnknown .sourceInvalidParameter h, .idle)
  | some uri =>
    let h := { h with uri := some uri, config := { h.config with packageSize := h.fwinfo.size } }
    let (h, _) := setCipher env a .prepareFirmwareSetup h
    ({ h with config := { h.config with packageId := packageId h.fwinfo.strgId } }, .requestDownloadAuthorization)

/-- The code of `ARM_UC_HUB_STATE_FETCH_FIRST_FRAGMENT`. -/
def fetchFirst (a : Answers) (h : Hub) : Hub × HubState :=
  let h := h.call (.reportState .downloading)
  let h := { h with front := { h.front with bytes := [] }, back := { h.back with bytes := [] }, firmwareOffset := 0 }
  if h.firmwareOffset < h.fwinfo.size then
    (h.call (.getFirmwareFragment h.front.ptr h.firmwareOffset), handleError a.getFirmwareFragment .fetchFirstFragment)
  else (h.call (.reportState .downloaded), .finalizeStorage)

/-- The second half of `ARM_UC_HUB_STATE_STORE_AND_DOWNLOAD`. -/
def fetchNext (a : Answers) (h : Hub) : Hub × HubState :=
  if h.firmwareOffset < h.fwinfo.size then
    let h := { h with front := { h.front with bytes := [] } }
    let h := h.call (.getFirmwareFragment h.front.ptr h.firmwareOffset)
    if a.getFirmwareFragment ≠ .none then (h, .idle)
    else (h.call (.reportProgress h.firmwareOffset h.fwinfo.size), .storeAndDownload)
  else (h.call (.reportProgress h.firmwareOffset h.fwinfo.size), .storeLastFragment)

/-- The code of `ARM_UC_HUB_STATE_STORE_AND_DOWNLOAD`: the buffers are swapped, the fragment is stored, and the
next one is fetched. -/
def storeFragment (a : Answers) (h : Hub) : Hub × HubState :=
  let h := { h with front := h.back, back := h.front }
  let h := { h with firmwareOffset := u32 (h.firmwareOffset + h.back.size) }
  if 0 < h.back.size then
    let h := h.call (.write h.back)
    if a.write ≠ .none then (h, .idle) else fetchNext a h
  else fetchNext a h

def enter (env : Env) (a : Answers) (setErrorUnknown : Hub → Hub) (s : HubState) (h : Hub) :
    Hub × HubState :=
  match s with
  | .initialized => (h.call .initDone, .getActiveFirmwareDetails)
  | .getActiveFirmwareDetails => (h.call .getActiveFirmwareDetails, handleError a.getActiveFirmwareDetails s)
  | .reportActiveHash =>
    let h := { h with front := { h.front with bytes := h.active.hash.take 32 } }
    (h.call (.reportName h.front.bytes), .reportActiveVersion)
  | .reportActiveVersion => (h.call (.reportVersion h.active.version), .getInstallerDetails)
  | .getInstallerDetails => (h.call .getInstallerDetails, handleError a.getInstallerDetails s)
  | .reportInstallerDetails =>
    ((h.call (.reportBootloaderHash h.installer.armHash)).call (.reportOemBootloaderHash h.installer.oemHash), .idle)
  | .idle => (h.call (.reportState .idle), s)
  | .notified => (h.call (.getManifest h.front.ptr), handleError a.getManifest s)
  | .manifestFetched =>
    let h := { h with manifest := h.front.bytes.take manifestBufferSize }
    (h.call (.mmInsert h.front.bytes), handlePending a.mmInsert s)
  | .manifestComplete => (h.call .mmFetchFirmwareInfo, handlePending a.mmFetchFirmwareInfo s)
  | .checkVersion =>
    let h := h.record (.compare h.fwinfo.timestamp h.active.version)
    if h.active.version < h.fwinfo.timestamp then (h, .prepareFirmwareSetup)
    else (errorHandler setErrorUnknown .rollbackProtection h, .idle)
  | .prepareFirmwareSetup => prepareSetup env a setErrorUnknown h
  | .requestDownloadAuthorization => (h.call (.getAuthorization .download), .waitForDownloadAuthorization)
  | .waitForDownloadAuthorization => (h, s)
  | .downloadAuthorized => (h, .setupFirmware)
  | .setupFirmware =>
    (h.call (.prepare h.setup ⟨h.fwinfo.timestamp, h.fwinfo.size, h.fwinfo.hash.take 32⟩), handleError a.prepare s)
  | .fetchFirstFragment => fetchFirst a h
  | .storeAndDownload => storeFragment a h
  | .waitForStorage => (h, s)
  | .waitForNetwork => (h, s)
  | .storeLastFragment => (h.call (.reportState .downloaded), s)
  | .finalizeStorage => (h.call .finalize, handleError a.finalize s)
  | .storageFinalized => (h.call (.getAuthorization .install), .waitForInstallAuthorization)
  | .waitForInstallAuthorization => (h, s)
  | .installAuthorized => (h.call (.reportState .updating), .activateFirmware)
  | .activateFirmware => (h.call (.activate h.config.packageId h.setup), s)
  | .reboot => (h.call .reboot, .getActiveFirmwareDetails)
  | .errorFirmwareManager => (h, .idle)
  | .errorManifestManager => (h, .idle)
  | .errorSourceManager => (h, .idle)
  | .errorControlCenter => (h, .idle)
  | .uninitialized => (h, .idle)
  | .certStored => (h, .idle)
  | .errorUnknown => (h, .idle)

def arrive (env : Env) (a : Answers) (setErrorUnknown : Hub → Hub) (s : HubState) (h : Hub) : Hub × HubState :=
  enter env a setErrorUnknown s ({ h with state := s }.record (.enter s))

/-- The loop of `ARM_UC_HUB_setState`, with a number of rounds. -/
def settle (env : Env) (a : Answers) (setErrorUnknown : Hub → Hub) : Nat → HubState → Hub → Hub
  | 0, _, h => h
  | k + 1, s, h =>
    let r := arrive env a setErrorUnknown s h
    if r.1.state = r.2 then r.1 else settle env a setErrorUnknown k r.2 r.1

/-- The loop when it is entered for an error: the states that follow call no handler. -/
def setErrorUnknown (env : Env) (a : Answers) (h : Hub) : Hub := settle env a id 2 .errorUnknown h

def setState (env : Env) (a : Answers) : HubState → Hub → Hub := settle env a (setErrorUnknown env a) 4

/-! ## Event handlers -/

/-- What a handler does with the state. -/
inductive Reaction where
  | ignore
  | goto (state : HubState)
  | fail (error : HubError)
  deriving DecidableEq

/-- `ARM_UC_HUB_FirmwareManagerEventHandler`. -/
def firmwareManagerEventHandler (event : FirmwareManagerEvent) (state : HubState) : Reaction :=
  match event with
  | .prepareDone => if state = .setupFirmware then .goto .fetchFirstFragment else .fail .firmwareInvalidParameter
  | .writeDone =>
    if state = .storeAndDownload then .goto .waitForNetwork
    else if state = .waitForStorage then .goto .storeAndDownload
    else if state = .storeLastFragment then .goto .finalizeStorage
    else .fail .firmwareInvalidParameter
  | .finalizeDone =>
    if state = .finalizeStorage then .goto .storageFinalized else .fail .firmwareInvalidParameter
  | .activateDone => if state = .activateFirmware then .goto .reboot else .fail .firmwareInvalidParameter
  | .getActiveFirmwareDetailsDone _ => .goto .reportActiveHash
  | .getInstallerDetailsDone _ => .goto .reportInstallerDetails
  | .writeError =>
    if state = .storeAndDownload ∨ state = .waitForStorage ∨ state = .storeLastFragment then .fail .firmwareWrite
    else .fail .firmwareInvalidParameter
  | .finalizeError => .fail .firmwareInvalidParameter
  | .finalizeInvalidHashError => .fail .firmwareInvalidHash
  | .activateError => .fail .firmwareActivate
  | .getActiveFirmwareDetailsError => .goto .getInstallerDetails
  | .getInstallerDetailsError => .goto .idle
  | .initializeDone => .ignore
  | .getFirmwareDetailsDone => .ignore
  | .initializeError => .ignore
  | .prepareError => .ignore
  | .getFirmwareDetailsError => .ignore
  | .other _ => .fail .firmwareInvalidParameter

/-- `ARM_UC_MM_RC_DONE`. -/
def manifestManagerDone (state : HubState) : Reaction :=
  if state = .uninitialized then .goto .initialized
  else if state = .manifestFetched then .goto .manifestComplete
  else .fail .manifestInvalidState

/-- `ARM_UC_HUB_ManifestManagerEventHandler`. -/
def manifestManagerEventHandler (event : ManifestManagerEvent) (state : HubState) : Reaction :=
  match event with
  | .error code =>
    if state = .uninitialized ∧ code = .manifestNoManifest then manifestManagerDone state else .fail code
  | .none => .fail .manifestInvalidState
  | .needDep => .fail .manifestNoManifest
  | .needFw => if state = .manifestComplete then .goto .checkVersion else .fail .manifestInvalidState
  | .done => manifestManagerDone state
  | .other _ => .fail .manifestBadEvent

/-- `ARM_UC_HUB_SourceManagerEventHandler`. -/
def sourceManagerEventHandler (event : SourceManagerEvent) (state : HubState) : Reaction :=
  match event with
  | .notification => if state = .idle then .goto .notified else .ignore
  | .manifest _ => if state = .notified then .goto .manifestFetched else .fail .sourceInvalidParameter
  | .firmware _ =>
    if state = .fetchFirstFragment ∨ state = .waitForNetwork then .goto .storeAndDownload
    else if state = .storeAndDownload then .goto .waitForStorage
    else .fail .sourceInvalidParameter
  | .keytable => .fail .sourceInvalidParameter
  | .error => .fail .sourceInvalidParameter
  | .other _ => .fail .sourceInvalidParameter

/-- `ARM_UC_HUB_ControlCenterEventHandler`. -/
def controlCenterEventHandler (event : ControlCenterEvent) (state : HubState) : Reaction :=
  match event with
  | .authorizeDownload => if state = .waitForDownloadAuthorization then .goto .downloadAuthorized else .ignore
  | .authorizeInstall => if state = .waitForInstallAuthorization then .goto .installAuthorized else .ignore
  | .monitorSendDone => .ignore
  | .other _ => .fail .invalidParameter

def handler (event : Event) (state : HubState) : Reaction :=
  match event with
  | .firmwareManager event => firmwareManagerEventHandler event state
  | .manifestManager event => manifestManagerEventHandler event state
  | .sourceManager event => sourceManagerEventHandler event state
  | .controlCenter event => controlCenterEventHandler event state

/-- The data that was written for the hub when an event is delivered. -/
def fill (env : Env) (event : Event) (h : Hub) : Hub :=
  match event with
  | .firmwareManager (.getActiveFirmwareDetailsDone details) => { h with active := details }
  | .firmwareManager (.getInstallerDetailsDone details) => { h with installer := details }
  | .manifestManager .needFw => { h with fwinfo := env.firmwareInfo h.manifest }
  | .sourceManager (.manifest bytes) => { h with front := { h.front with bytes := bytes.val } }
  | .sourceManager (.firmware bytes) => { h with front := { h.front with bytes := bytes.val } }
  | _ => h

/-- The hub when an event has been received. -/
def received (env : Env) (h : Hub) (event : Event) : Hub := (fill env event h).record (.event h.state event)

def deliver (env : Env) (h : Hub) (event : Event) (a : Answers) : Hub :=
  match handler event h.state with
  | .ignore => received env h event
  | .goto s => setState env a s (received env h event)
  | .fail error => errorHandler (setState env a .errorUnknown) error (received env h event)

def run (env : Env) (events : List (Event × Answers)) : Hub := events.foldl (fun h e => deliver env h e.1 e.2) initial

/-! ## Rounds -/

/-- How many states can follow a state. -/
def rank : HubState → Nat
  | .idle | .waitForDownloadAuthorization | .waitForStorage | .waitForNetwork | .storeLastFragment
  | .waitForInstallAuthorization | .activateFirmware => 0
  | .initialized | .reportActiveVersion | .prepareFirmwareSetup | .downloadAuthorized | .fetchFirstFragment
  | .reboot => 2
  | .reportActiveHash | .checkVersion => 3
  | _ => 1

section Rounds

variable (env : Env) (a : Answers)

theorem handleError_eq (retval : Retval) (s : HubState) : handleError retval s = s ∨ handleError retval s = .idle := by
  unfold handleError
  split_ifs
  · exact .inr rfl
  · exact .inl rfl

theorem handlePending_eq (retval : Retval) (s : HubState) : handlePending retval s = s ∨ handlePending retval s = .idle := by
  unfold handlePending
  split_ifs
  · exact handleError_eq retval s
  · exact .inl rfl

theorem errorHandler_state (error : HubError) (h : Hub) : (errorHandler (setErrorUnknown env a) error h).state = .idle := rfl

/-- A handler that is called while an event is handled does what it does for an event. -/
theorem setState_errorUnknown (h : Hub) : setState env a .errorUnknown h = setErrorUnknown env a h := rfl

variable {h : Hub} {k : Nat} {s : HubState}

theorem rank_of_eq_or_idle {s next : HubState} (hs : h.state = s) (hnext : next = s ∨ next = .idle)
    (hpos : 0 < rank s) : h.state = next ∨ rank next < rank s := by
  rcases hnext with rfl | rfl
  · exact .inl hs
  · exact .inr hpos

theorem fetchNext_next (hs : h.state = .storeAndDownload) :
    (fetchNext a h).1.state = (fetchNext a h).2 ∨ rank (fetchNext a h).2 < rank .storeAndDownload := by
  unfold fetchNext
  split_ifs
  · exact .inr Nat.zero_lt_one
  · exact .inl hs
  · exact .inr Nat.zero_lt_one

theorem storeFragment_next (hs : h.state = .storeAndDownload) :
    (storeFragment a h).1.state = (storeFragment a h).2 ∨ rank (storeFragment a h).2 < rank .storeAndDownload := by
  unfold storeFragment
  dsimp only
  split_ifs
  · exact .inr Nat.zero_lt_one
  · exact fetchNext_next a hs
  · exact fetchNext_next a hs

theorem fetchFirst_next (hs : h.state = .fetchFirstFragment) :
    (fetchFirst a h).1.state = (fetchFirst a h).2 ∨ rank (fetchFirst a h).2 < rank .fetchFirstFragment := by
  unfold fetchFirst
  dsimp only
  split_ifs
  · exact rank_of_eq_or_idle hs (handleError_eq _ _) (by decide)
  · exact .inr Nat.one_lt_two

theorem prepareSetup_next (h : Hub) :
    (prepareSetup env a (setErrorUnknown env a) h).1.state = (prepareSetup env a (setErrorUnknown env a) h).2 ∨
      rank (prepareSetup env a (setErrorUnknown env a) h).2 < rank .prepareFirmwareSetup := by
  unfold prepareSetup
  dsimp only
  split
  · exact .inl rfl
  · exact .inr Nat.one_lt_two

/-- The state is its own next state, or fewer states can follow. -/
theorem arrive_next (s : HubState) (h : Hub) :
    (arrive env a (setErrorUnknown env a) s h).1.state = (arrive env a (setErrorUnknown env a) s h).2 ∨
      rank (arrive env a (setErrorUnknown env a) s h).2 < rank s := by
  cases s with
  | getActiveFirmwareDetails | getInstallerDetails | notified | setupFirmware | finalizeStorage =>
    exact rank_of_eq_or_idle rfl (handleError_eq _ _) (by decide)
  | manifestFetched | manifestComplete => exact rank_of_eq_or_idle rfl (handlePending_eq _ _) (by decide)
  | checkVersion =>
    unfold arrive enter
    dsimp only
    split_ifs
    · exact .inr (Nat.lt_succ_self 2)
    · exact .inl rfl
  | prepareFirmwareSetup => exact prepareSetup_next env a _
  | fetchFirstFragment => exact fetchFirst_next a rfl
  | storeAndDownload => exact storeFragment_next a rfl
  | idle | waitForDownloadAuthorization | waitForStorage | waitForNetwork | storeLastFragment
  | waitForInstallAuthorization | activateFirmware => exact .inl rfl
  | _ => exact .inr (by simp [arrive, enter, rank])

variable {env a} {r : Hub × HubState} {event : Event}

theorem settle_more (hr : arrive env a (setErrorUnknown env a) s h = r) (hne : r.1.state ≠ r.2) :
    settle env a (setErrorUnknown env a) (k + 1) s h = settle env a (setErrorUnknown env a) k r.2 r.1 := by
  rw [settle, hr, if_neg hne]

theorem settle_done (hr : arrive env a (setErrorUnknown env a) s h = r) (heq : r.1.state = r.2) :
    settle env a (setErrorUnknown env a) (k + 1) s h = r.1 := by
  rw [settle, hr, if_pos heq]

theorem errorHandler_log (error : HubError) (g : Hub) :
    (errorHandler (setErrorUnknown env a) error g).log = g.log ++
      [.call (.errorCallback error.external), .call (.reportUpdateResult error.monitor), .enter .errorUnknown,
        .enter .idle, .call (.reportState .idle)] := by
  simp [errorHandler, setErrorUnknown, settle, arrive, enter, Hub.record, Hub.call]

theorem deliver_goto (hgoto : handler event h.state = .goto s) :
    deliver env h event a = setState env a s (received env h event) := by
  rw [deliver, hgoto]

theorem deliver_fail {error : HubError} (hfail : handler event h.state = .fail error) :
    deliver env h event a = errorHandler (setErrorUnknown env a) error (received env h event) := by
  rw [deliver, hfail]
  rfl

/-- What holds when a state is about to be entered, and what holds afterwards of its next state. -/
theorem settle_invariant (Ready Settled : HubState → Hub → Prop) (harrive : ∀ s h, Ready s h →
      Settled (arrive env a (setErrorUnknown env a) s h).2 (arrive env a (setErrorUnknown env a) s h).1)
    (hagain : ∀ s h, h.state ≠ s → Settled s h → Ready s h) (hk : rank s < k) (hready : Ready s h) :
    Settled (settle env a (setErrorUnknown env a) k s h).state (settle env a (setErrorUnknown env a) k s h) := by
  induction k generalizing s h with
  | zero => cases hk
  | succ k ih =>
    have hsettled := harrive s h hready
    rw [settle]
    split_ifs with hstop
    · rw [hstop]
      exact hsettled
    apply ih
    · rcases arrive_next env a s h with heq | hlt
      · exact absurd heq hstop
      · omega
    · exact hagain _ _ hstop hsettled

theorem rank_lt (s : HubState) : rank s < 4 := by cases s <;> decide

end Rounds

end MbedCloud.Update.Machine


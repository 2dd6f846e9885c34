import MbedCloud.Update.HubOrder

/-!
# A cipher that fails

`HANDLE_ERROR` sets the next state and breaks. Inside of the switch over the cipher modes this only leaves the
switch, and the code behind it sets the next state once more: the hub asks for the download of a firmware whose
cipher it does not support, or for which it has no key, and prepares the storage with what an earlier manifest
left in the configuration. Only a URI that cannot be parsed keeps it from that.
-/

namespace MbedCloud.Update.Machine

open Lib

/-- The key is not obtained, or the mode is not one that the hub supports. -/
def CipherBad (a : Answers) (h : Hub) : Prop :=
  match h.fwinfo.cipherMode with
  | .none => False
  | .psk => a.preSharedKey = none
  | _ => True

/-- The setup of the firmware ends in `idle`, and the download is not asked for. -/
def ReturnsToIdle (env : Env) (a : Answers) (h : Hub) : Prop :=
  (setState env a .prepareFirmwareSetup h).state = .idle ∧
    ∀ es, (setState env a .prepareFirmwareSetup h).log = h.log ++ es → .call (.getAuthorization .download) ∉ es

section Setup

variable {env : Env} {a : Answers} {h : Hub}

theorem setCipher_state (s : HubState) (h : Hub) : (setCipher env a s h).1.state = h.state := by
  unfold setCipher
  split <;> try rfl
  split <;> rfl

/-- Whatever becomes of the cipher, the download is asked for. -/
theorem setup_waits {uri : Str2uri.Uri} (huri : env.str2uri h.fwinfo.uri = some uri) :
    (setState env a .prepareFirmwareSetup h).state = .waitForDownloadAuthorization := by
  have hnext : (arrive env a (setErrorUnknown env a) .prepareFirmwareSetup h).2 = .requestDownloadAuthorization := by
    simp [arrive, enter, prepareSetup, Hub.record, huri]
  have hstate : (arrive env a (setErrorUnknown env a) .prepareFirmwareSetup h).1.state = .prepareFirmwareSetup := by
    simp [arrive, enter, prepareSetup, Hub.record, huri, setCipher_state]
  rw [setState, settle_more rfl, hnext, settle_more rfl, settle_done rfl rfl]
  · rfl
  · simp [arrive, enter, Hub.record, Hub.call]
  · simp [hstate, hnext]

/-- A URI that cannot be parsed is an error. -/
theorem setup_fails (huri : env.str2uri h.fwinfo.uri = none) : ReturnsToIdle env a h := by
  obtain ⟨g, hlog, hg⟩ : ∃ g : Hub, g.log = h.log ++ [.enter .prepareFirmwareSetup] ∧
      arrive env a (setErrorUnknown env a) .prepareFirmwareSetup h =
        (errorHandler (setErrorUnknown env a) .sourceInvalidParameter g, .idle) := by
    refine ⟨{ h.stored .prepareFirmwareSetup with
      config := { h.config with hash := true }
      fwinfo := { h.fwinfo with uri := h.fwinfo.uri.set (h.fwinfo.uri.length - 1) 0 } }, rfl, ?_⟩
    simp only [arrive, enter, prepareSetup, Hub.record, huri]
    rfl
  have hrun : setState env a .prepareFirmwareSetup h = errorHandler (setErrorUnknown env a) .sourceInvalidParameter g := by
    rw [setState, settle_done hg rfl]
  refine ⟨?_, ?_⟩
  · rw [hrun]
    rfl
  intro es hes
  rw [hrun, errorHandler_log, hlog, List.append_assoc] at hes
  rw [← List.append_cancel_left hes]
  simp

end Setup

/-- For every firmware information: a key that is not obtained or a mode that is not supported brings the hub
back to `idle` exactly if the URI cannot be parsed. And in every run, the storage is prepared with the mode, the
key and the vector of the last manifest, if its cipher did not fail. -/
theorem prepare_setup_iff (env : Env) :
    (∀ (a : Answers) (h : Hub), (CipherBad a h → ReturnsToIdle env a h) ↔ (¬ CipherBad a h ∨ env.str2uri h.fwinfo.uri = none)) ∧
    ∀ events : List (Event × Answers), Each (Prepared env) (run env events).log := by
  refine ⟨fun a h => ⟨?_, ?_⟩, fun events before e after heq => 
    ((run_sound env events).inPlace before e after heq).prepared⟩
  · intro hreturns
    by_cases hbad : CipherBad a h
    · right
      cases huri : env.str2uri h.fwinfo.uri with
      | none => rfl
      | some uri =>
        have hidle := (hreturns hbad).1
        rw [setup_waits huri] at hidle
        cases hidle
    · exact .inl hbad
  · rintro (hgood | huri)
    · exact fun hbad => absurd hbad hgood
    · exact fun _ => setup_fails huri

/-- A manifest with a key table, which is not supported. -/
def keytable : Env :=
  { oneByte with firmwareInfo := fun bytes => { oneByte.firmwareInfo bytes with cipherMode := .certKeytable } }

/-- The events up to the authorization of the download. -/
def authorizedEvents : List Event := oneByteEvents.take 7

/-- The mode is not supported; the hub waits for the download, and the storage is prepared without a mode. -/
theorem prepare_setup_unsupported :
    (CipherBad allAccepted { initial with fwinfo := keytable.firmwareInfo [] } ∧
      ¬ ReturnsToIdle keytable allAccepted { initial with fwinfo := keytable.firmwareInfo [] }) ∧
    Entry.call (.prepare ⟨.uninit, none, none, some [7], 0, 1⟩ ⟨1, 1, [7]⟩) ∈
      (run keytable (authorizedEvents.map (·, allAccepted))).log := by
  refine ⟨⟨trivial, fun h => ?_⟩, by decide +kernel⟩
  have hidle := h.1
  obtain ⟨uri, huri⟩ : ∃ uri, keytable.str2uri (keytable.firmwareInfo []).uri = some uri :=
    Option.isSome_iff_exists.mp (by decide +kernel)
  rw [setup_waits huri] at hidle
  cases hidle

end MbedCloud.Update.Machine


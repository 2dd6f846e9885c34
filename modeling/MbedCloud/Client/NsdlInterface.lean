import MbedCloud.Update.Utilities

/-!
# Texts of the client interface

The text for an error response to the bootstrap request is put together in a buffer of 64 bytes, and
nothing compares the length of the payload with the room that is left (`reports_iff`). The query of the server
address is split at its `&` signs, while its parameters are counted by their `=` signs (`passesQuery_iff`).
-/

namespace MbedCloud.Client

open Lib List Update

/-! ## The error of a bootstrap response -/

/-- `M2MInterface::Error`, as far as `interface_error` sets it. -/
inductive Error where
  | errorNone
  | invalidParameters
  | notAllowed
  | networkError
  | unknownError
  deriving DecidableEq

/-- The fields of a response that are read. The message codes are the numbers of
`sn_coap_msg_code_e`, and `sendingFailed` is the status `COAP_STATUS_BUILDER_MESSAGE_SENDING_FAILED`. -/
structure Response where
  msgCode : Nat
  sendingFailed : Bool
  payload : Option Bytes
  deriving DecidableEq

/-- `M2MNsdlInterface::interface_error`. -/
def interfaceError (r : Response) : Error :=
  if r.sendingFailed then .networkError
  else
    match r.msgCode with
    | 128 | 130 | 136 | 140 | 141 | 143 => .invalidParameters
    | 129 | 131 | 132 | 133 | 134 => .notAllowed
    | 65 | 66 | 67 | 68 | 69 => .errorNone
    | _ => .unknownError

def ascii (s : String) : Bytes := s.toList.map fun c => UInt8.ofNat c.toNat

/-- `M2MNsdlInterface::coap_error`. -/
def coapError (r : Response) : Bytes :=
  ascii <| match r.msgCode with
    | 128 => "bad-request"
    | 130 => "bad-option"
    | 136 => "request-entity-incomplete"
    | 140 => "precondition-failed"
    | 141 => "request-entity-too-large"
    | 143 => "unsupported-content-format"
    | 129 => "response-unauthorized"
    | 131 => "response-forbidden"
    | 134 => "not-acceptable"
    | 132 => "not-found"
    | 133 => "method-not-allowed"
    | 163 => "service-unavailable"
    | 160 => "internal-server-error"
    | 162 => "bad-gateway"
    | 164 => "gateway-timeout"
    | 165 => "proxying-not-supported"
    | _ => if r.sendingFailed then "message-sending-failed" else "no-error"

/-- `strncat` looks for the end of the string first. -/
def strncat (dst src : Bytes) (n : Nat) : Exec Fault Bytes := do
  let len ← strnlen dst 0 (dst.length + 1)
  wrBytes dst len (cString (src.take n) ++ [0])

def strncpy (dst src : Bytes) (n : Nat) : Exec Fault Bytes :=
  wrBytes dst 0 ((cString src).take n ++ replicate (n - (cString src).length) 0)

/-- The text in a buffer of `MAX_ALLOWED_ERROR_STRING_LENGTH` bytes. -/
def errorText (r : Response) : Exec Fault Bytes := do
  let buffer ← wrBytes (replicate 64 0) 0 (coapError r)
  match r.payload with
  | none => pure buffer
  | some payload => do
    let buffer ← strncat buffer (ascii ":") 1
    strncat buffer payload payload.length

/-- `M2MInterfaceImpl::set_error_description`. Both are buffers of the size that `strncmp` is given. -/
def setErrorDescription (old description : Bytes) : Exec Fault Bytes :=
  if cString old = cString description then pure old else strncpy old description 63

/-- The error description after a response to the bootstrap request, as
`received_from_server_callback` and `handle_bootstrap_error` set it. -/
def bootstrapResponse (r : Response) (old : Bytes) : Exec Fault Bytes :=
  if interfaceError r = .errorNone then pure old else errorText r >>= setErrorDescription old

/-- The member `_error_description`: the constructor clears it, and no copy reaches its last byte. -/
structure Description where
  bytes : Bytes
  length_eq : bytes.length = 64
  last : bytes.drop 63 = [0]

/-- The reason, and the payload behind a colon. -/
def Response.text (r : Response) : Bytes := coapError r ++ r.payload.elim [] (ascii ":" ++ ·)

/-- Nothing is written outside of the buffers, and a string with a beginning of the text is stored. -/
def Reports (r : Response) (old : Description) : Prop :=
  ∃ new, bootstrapResponse r old.bytes = .ok new ∧ (0 : UInt8) ∈ new ∧ cString new <+: r.text

/-- A buffer with a text and zeros behind it. -/
def padded (t : Bytes) : Bytes := t ++ replicate (64 - t.length) 0

section Padded

variable {t bs : Bytes}

theorem length_padded (ht : t.length ≤ 64) : (padded t).length = 64 := by
  rw [padded, length_append, length_replicate]
  omega

theorem cString_padded (ht : (0 : UInt8) ∉ t) : cString (padded t) = t := by
  rw [padded, cString_append ht, cString, takeWhile_replicate]
  simp

theorem padded_zero (ht : t.length < 64) : padded (t ++ [0]) = padded t := by
  have hsucc : 64 - t.length = 64 - (t ++ [0]).length + 1 := by
    rw [length_append, length_singleton]
    omega
  rw [padded, padded, hsucc, replicate_succ, append_assoc]
  rfl

theorem wrBytes_padded (h : t.length + bs.length ≤ 64) : wrBytes (padded t) t.length bs = .ok (padded (t ++ bs)) := by
  rw [wrBytes_eq (by rw [length_padded (by omega)]; exact h)]
  simp [padded, Nat.sub_sub]

theorem wrBytes_outside {mem : Bytes} {i : Nat} (hi : i ≤ mem.length) (h : mem.length < i + bs.length) :
    ∃ e, wrBytes mem i bs = .error e := by
  induction bs generalizing mem i with
  | nil => exact absurd h (Nat.not_lt_of_ge hi)
  | cons b bs ih =>
    rw [length_cons] at h
    rw [wrBytes, wr]
    split
    · exact ih (by rw [length_set]; omega) (by rw [length_set]; omega)
    · exact ⟨_, rfl⟩

variable (ht : (0 : UInt8) ∉ t) (hlen : t.length < 64)
include ht hlen

/-- What is appended has to leave room for the zero at the end. -/
theorem strncat_padded (src : Bytes) (n : Nat) :
    if t.length + (cString (src.take n)).length < 64 then strncat (padded t) src n = .ok (padded (t ++ cString (src.take n)))
    else ∃ e, strncat (padded t) src n = .error e := by
  have hstrlen : strnlen (padded t) 0 ((padded t).length + 1) = .ok t.length := by
    refine strnlen_eq t (replicate (64 - t.length) 0) rfl ht ?_ (.inr ⟨replicate (63 - t.length) 0, ?_⟩)
    · rw [length_padded (Nat.le_of_lt hlen)]
      omega
    · rw [← replicate_succ]
      congr 1
      omega
  rw [strncat, hstrlen, ok_bind]
  split_ifs with hfits
  · rw [wrBytes_padded (by rw [length_append, length_singleton]; exact hfits), ← append_assoc, padded_zero]
    rw [length_append]
    exact hfits
  · refine wrBytes_outside ?_ ?_ <;> rw [length_padded (Nat.le_of_lt hlen)]
    · exact Nat.le_of_lt hlen
    · rw [length_append, length_singleton]
      omega

/-- A text that fits is the description afterwards. -/
theorem setErrorDescription_padded (old : Description) :
    ∃ new, setErrorDescription old.bytes (padded t) = .ok new ∧ (0 : UInt8) ∈ new ∧ cString new = t := by
  unfold setErrorDescription
  rw [cString_padded ht]
  split_ifs with hsame
  · exact ⟨_, rfl, mem_of_mem_drop (old.last ▸ mem_singleton_self 0), hsame⟩
  · have hsize : (t ++ replicate (63 - t.length) (0 : UInt8)).length = 63 := by
      rw [length_append, length_replicate]
      omega
    have hrest : 64 - t.length = 63 - t.length + 1 := by omega
    refine ⟨padded t, ?_, by simp [padded, hrest], cString_padded ht⟩
    rw [strncpy, cString_padded ht, take_of_length_le (by omega),
      wrBytes_eq (by rw [hsize, old.length_eq]; decide), hsize, old.last, padded, hrest, replicate_succ']
    simp

end Padded

theorem coapError_spec (r : Response) : (coapError r).length ≤ 26 ∧ (0 : UInt8) ∉ coapError r := by
  unfold coapError
  generalize r.sendingFailed = failed
  split
  all_goals first | decide | (cases failed <;> decide)

/-- The text fits into the buffer with a zero behind it, up to a zero byte of the payload. -/
def Response.Fits (r : Response) : Prop := ∀ payload ∈ r.payload, (coapError r).length + 1 + (cString payload).length < 64

theorem errorText_spec (r : Response) :
    (r.Fits → ∃ t, errorText r = .ok (padded t) ∧ (0 : UInt8) ∉ t ∧ t.length < 64 ∧ t <+: r.text) ∧
      (¬ r.Fits → ∃ e, errorText r = .error e) := by
  obtain ⟨hreason, hzero⟩ := coapError_spec r
  have hstart : wrBytes (replicate 64 0) 0 (coapError r) = .ok (padded (coapError r)) :=
    wrBytes_padded (t := []) (by rw [length_nil]; omega)
  unfold errorText Response.Fits Response.text
  rw [hstart, ok_bind]
  cases r.payload with
  | none => exact ⟨fun _ => ⟨_, rfl, hzero, by omega, prefix_append _ _⟩, fun h => absurd nofun h⟩
  | some payload =>
    have hsize : (coapError r ++ ascii ":").length = (coapError r).length + 1 := length_append
    have hcolon : strncat (padded (coapError r)) (ascii ":") 1 = .ok (padded (coapError r ++ ascii ":")) := by
      have h := strncat_padded hzero (by omega) (ascii ":") 1
      rwa [show cString ((ascii ":").take 1) = ascii ":" by decide, ← length_append, hsize, if_pos (by omega)] at h
    have htext : (0 : UInt8) ∉ coapError r ++ ascii ":" := by
      rw [mem_append, not_or]
      exact ⟨hzero, by decide⟩
    have hrun := strncat_padded htext (by omega) payload payload.length
    rw [take_length, hsize] at hrun
    simp only [hcolon, ok_bind, Option.mem_some_iff, forall_eq', Option.elim_some]
    split at hrun
    · rename_i hfits
      refine ⟨fun _ => ⟨_, hrun, ?_, by rwa [length_append, hsize], ?_⟩, fun h => absurd hfits h⟩
      · rw [mem_append, not_or]
        exact ⟨htext, zero_notMem_cString payload⟩
      · rw [append_assoc]
        exact (prefix_append_right_inj _).mpr ((prefix_append_right_inj _).mpr <| takeWhile_prefix _)
    · rename_i hlong
      exact ⟨fun h => absurd h hlong, fun _ => hrun⟩

/-- **Error texts.** The error of a response is reported exactly if its text fits into the buffer. -/
theorem reports_iff (r : Response) (old : Description) (herror : interfaceError r ≠ .errorNone) : Reports r old ↔ r.Fits := by
  unfold Reports bootstrapResponse
  rw [if_neg herror]
  constructor
  · rintro ⟨new, hnew, -⟩
    by_contra hlong
    obtain ⟨e, he⟩ := (errorText_spec r).2 hlong
    rw [he] at hnew
    cases hnew
  · intro hfits
    obtain ⟨t, ht, hzero, hlen, hprefix⟩ := (errorText_spec r).1 hfits
    obtain ⟨new, hnew, hend, rfl⟩ := setErrorDescription_padded hzero hlen old
    rw [ht]
    exact ⟨new, hnew, hend, hprefix⟩

/-- The description as the constructor leaves it. -/
def noDescription : Description := ⟨replicate 64 0, rfl, rfl⟩

theorem reports_notFound :
    interfaceError ⟨132, false, some (ascii "x")⟩ ≠ .errorNone ∧ Reports ⟨132, false, some (ascii "x")⟩ noDescription := by
  refine ⟨by decide, (reports_iff _ _ (by decide)).mpr fun payload hpayload => ?_⟩
  cases hpayload
  decide

/-- 53 bytes behind `bad-option:`. -/
theorem not_reports_long : ¬ Reports ⟨130, false, some (replicate 53 97)⟩ noDescription := by
  rintro ⟨new, hnew, -⟩
  have hrun : bootstrapResponse ⟨130, false, some (replicate 53 97)⟩ noDescription.bytes = .error (.fail (.write 64)) := by decide
  cases hrun.symm.trans hnew

/-! ## The query parameters of a message -/

/-- The parameter array; a pointer is given by its text. -/
abbrev Params := List (Option Bytes)

def maxQueryCount : Nat := 10

def mccVersion : Bytes := ascii "mccv=1.2.6"

/-- `query_string`. The texts are given without their last zero. -/
def queryString (uri : Bytes) : Option Bytes :=
  match uri.dropWhile (· ≠ 63) with
  | [] | [_] => none
  | _ :: query => some query

def queryParamCount (query : Bytes) : Int := i8 (query.count 61)

def setParam (params : Params) (index : Nat) (text : Bytes) : Exec Fault Params :=
  if index < params.length then .ok (params.set index (some text)) else .error (.fail (.write index))

/-- The stores of `uri_query_parameters`. The `&` behind a piece is overwritten with a zero, and ends the text of its
pointer. -/
def storePieces (params : Params) (query : Bytes) (index : Nat) : Exec Fault Params := do
  let params ← setParam params index (query.takeWhile (· ≠ 38))
  match h : query.dropWhile (· ≠ 38) with
  | [] => pure params
  | _ :: rest => storePieces params rest (index + 1)
termination_by query.length
decreasing_by
  have hle := (dropWhile_sublist (l := query) (· ≠ 38)).length_le
  rw [h, length_cons] at hle
  omega

def uriQueryParameters (query : Bytes) (params : Params) (index : Int) : Exec Fault (Bool × Params) :=
  if query = [] ∨ index < 0 then pure (false, params)
  else do
    let params ← storePieces params query index.toNat
    pure (true, params)

/-- What `parse_and_send_uri_query_parameters` and `create_bootstrap_resource` pass on: an array with a count, or NULL.
`copied` tells whether there is memory for the copy of the address. -/
def messageParameters (copied : Bool) (serverAddress : Bytes) : Exec Fault (Option (Params × Int)) :=
  match queryString serverAddress with
  | some query =>
    if copied ∧ queryParamCount query ≠ 0 then do
      let (parsed, params) ← uriQueryParameters query (replicate maxQueryCount none) 0
      if parsed then
        let (_, params) ← uriQueryParameters mccVersion params (queryParamCount query)
        pure (some (params, queryParamCount query + queryParamCount mccVersion))
      else pure none
    else pure none
  | none => pure none

def pieces (query : Bytes) : List Bytes := query.splitOn 38

/-- The stores are in the array, and the pieces of the query and the version are passed on. -/
def PassesQuery (copied : Bool) (serverAddress query : Bytes) : Prop :=
  ∃ params, messageParameters copied serverAddress = .ok (some (params, (pieces query).length + 1)) ∧
    params.take ((pieces query).length + 1) = (pieces query ++ [mccVersion]).map some

section Query

variable {query : Bytes} {params : Params}

theorem pieces_eq (query : Bytes) : pieces query = query.takeWhile (· ≠ 38) ::
    match query.dropWhile (· ≠ 38) with
    | [] => []
    | _ :: rest => pieces rest := by
  unfold pieces
  induction query with
  | nil => rfl
  | cons c query ih =>
    by_cases hc : c = 38
    · simp [splitOn, splitOnP_cons_eq_if_modifyHead, hc]
    · simp [splitOn, splitOnP_cons_eq_if_modifyHead, hc] at ih ⊢
      rw [ih]
      rfl

theorem length_pieces_pos (query : Bytes) : 0 < (pieces query).length := by
  rw [pieces_eq]
  exact Nat.succ_pos _

/-- The stores go on until the end of the array. -/
theorem storePieces_append (done free : Params) (query : Bytes) :
    storePieces (done ++ free) query done.length =
      if (pieces query).length ≤ free.length then .ok (done ++ (pieces query).map some ++ free.drop (pieces query).length)
      else .error (.fail (.write (done.length + free.length))) := by
  induction hn : query.length using Nat.strong_induction_on generalizing query done free with
  | _ n ih =>
  have hpieces := pieces_eq query
  rw [storePieces, setParam]
  cases free with
  | nil =>
    have hnone : ¬ (pieces query).length ≤ ([] : Params).length := Nat.not_le.mpr (length_pieces_pos query)
    rw [if_neg (by simp), if_neg hnone]
    rfl
  | cons x free =>
    have hset : (done ++ x :: free).set done.length (some (query.takeWhile (· ≠ 38))) =
        done ++ [some (query.takeWhile (· ≠ 38))] ++ free := by simp
    rw [if_pos (by simp), ok_bind, hset]
    split
    · rename_i hrest
      rw [hrest] at hpieces
      rw [hpieces, if_pos (by simp)]
      rfl
    · rename_i c rest hrest
      have hshort : rest.length < n := by
        have hle := (dropWhile_sublist (l := query) (· ≠ 38)).length_le
        rw [hrest, length_cons] at hle
        omega
      have hstep := ih rest.length hshort (done ++ [some (query.takeWhile (· ≠ 38))]) free rest rfl
      rw [hrest] at hpieces
      rw [length_append, length_singleton] at hstep
      rw [hstep, hpieces]
      simp [Nat.add_assoc, Nat.add_comm 1]

theorem uriQueryParameters_append (done free : Params) (hquery : query ≠ []) :
    uriQueryParameters query (done ++ free) done.length =
      if (pieces query).length ≤ free.length then .ok (true, done ++ (pieces query).map some ++ free.drop (pieces query).length)
      else .error (.fail (.write (done.length + free.length))) := by
  rw [uriQueryParameters, if_neg (by simp [hquery]), Int.toNat_natCast, storePieces_append]
  split <;> rfl

theorem queryString_eq {scheme : Bytes} (hscheme : 63 ∉ scheme) (query : Bytes) :
    queryString (scheme ++ 63 :: query) = if query = [] then none else some query := by
  have hdrop : (scheme ++ 63 :: query).dropWhile (· ≠ 63) = 63 :: query := by
    have hall : ∀ c ∈ scheme, decide (c ≠ 63) = true := fun c hc => decide_eq_true fun heq => hscheme (heq ▸ hc)
    rw [dropWhile_append_of_pos hall]
    rfl
  rw [queryString, hdrop]
  cases query <;> rfl

/-- **Query parameters.** The pieces of the query are passed on with the version exactly if there are as many of them
as `=` signs, counted in 8 bits, and less than the array has places. -/
theorem passesQuery_iff (copied : Bool) (scheme query : Bytes) (hscheme : 63 ∉ scheme) :
    PassesQuery copied (scheme ++ 63 :: query) query ↔
      copied = true ∧ queryParamCount query = (pieces query).length ∧ (pieces query).length < maxQueryCount := by
  have hpos := length_pieces_pos query
  unfold PassesQuery messageParameters
  rw [queryString_eq hscheme]
  by_cases hquery : query = []
  · rw [if_pos hquery, hquery]
    constructor
    · rintro ⟨params, hrun, -⟩
      cases hrun
    · rintro ⟨-, hcount, -⟩
      exact absurd hcount (by decide)
  -- the version is stored behind the pieces, if the count is theirs
  have hfill : uriQueryParameters query (replicate maxQueryCount none) 0 = _ :=
    uriQueryParameters_append [] (replicate maxQueryCount none) hquery
  have hversion := @uriQueryParameters_append mccVersion ((pieces query).map some)
    ((replicate maxQueryCount none).drop (pieces query).length) (by decide)
  have hone : pieces mccVersion = [mccVersion] := by decide
  have hcount : queryParamCount mccVersion = 1 := by decide
  rw [hone, length_drop, length_map, length_replicate] at hversion
  rw [if_neg hquery]
  dsimp only
  rw [hfill, length_replicate, hcount]
  constructor
  · rintro ⟨params, hrun, -⟩
    split_ifs at hrun with hcond hfit
    · rw [ok_bind] at hrun
      obtain ⟨⟨_, params'⟩, hsecond, hrun⟩ := bind_eq_ok hrun
      have hequal : queryParamCount query = (pieces query).length := by
        have := congrArg Prod.snd (Option.some.inj (Except.ok.inj hrun))
        omega
      rw [hequal, nil_append, hversion] at hsecond
      split_ifs at hsecond with hroom
      · rw [length_singleton] at hroom
        exact ⟨hcond.1, hequal, by omega⟩
    · cases hrun
    · cases hrun
  · rintro ⟨rfl, hequal, hroom⟩
    rw [hequal, if_pos ⟨rfl, by omega⟩, if_pos (Nat.le_of_lt hroom), ok_bind]
    rw [if_pos rfl, nil_append, hversion, if_pos (by rw [length_singleton]; omega)]
    refine ⟨_, rfl, ?_⟩
    rw [map_append, map_singleton]
    exact take_left' (by simp)

theorem passesQuery_two : PassesQuery true (ascii "c?a=1&b=2") (ascii "a=1&b=2") :=
  (passesQuery_iff true (ascii "c") (ascii "a=1&b=2") (by decide)).mpr (by decide)

/-- The version behind ten pieces is stored at index 10. -/
theorem not_passesQuery : messageParameters true (ascii "c?a=&b=&c=&d=&e=&f=&g=&h=&i=&j=") = .error (.fail (.write 10)) ∧
    ¬ PassesQuery true (ascii "c?a=&b=&c=&d=&e=&f=&g=&h=&i=&j=") (ascii "a=&b=&c=&d=&e=&f=&g=&h=&i=&j=") := by
  have hrun : messageParameters true (ascii "c?a=&b=&c=&d=&e=&f=&g=&h=&i=&j=") = .error (.fail (.write 10)) := by decide +kernel
  refine ⟨hrun, ?_⟩
  rintro ⟨params, hok, -⟩
  cases hrun.symm.trans hok

end Query

end MbedCloud.Client


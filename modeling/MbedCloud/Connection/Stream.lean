import MbedCloud.Connection.Frames
import MbedCloud.Connection.Secure

/-!
# Sending on a stream

What `send_socket_data` hands to the transport, call by call. A message that is half sent is put back in front of the
queue with its offset, so what has been accepted and what is left in the queue is all that has been queued, in order
(`stream_pending`). On plain TCP the length of an item is that of the message and four more bytes, in 16 bits: it is
wrong for messages of more than 65531 bytes. And there is no length in front of a message if a secure server has been
resolved before, since the flag `_secure_connection` is never reset.
-/

namespace MbedCloud.Connection

open List

/-! ## The stream -/

/-- What the transport accepts of an item, for the results of the calls. -/
def accepted : Item → List Sent → Bytes
  | _, [] => []
  | item, r :: rs =>
    if item.offset < item.data.length then
      match r with
      | .bytes n => (item.data.drop item.offset).take n ++ accepted { item with offset := item.offset + n } rs
      | .wantsRead => accepted item rs
      | .wait | .closeNotify | .failed => []
    else []

/-- What is accepted in a call of `send_socket_data`. -/
def written (rs : List Sent) (h : Handler) : Bytes :=
  match h.queue with
  | [] => []
  | item :: _ => if item.data = [] || !h.state.established then [] else accepted item rs

/-- What is accepted in a call or an event on a connection, and the message that `send_data` has queued. -/
def transmits (h : Handler) : Call → Bytes × List Bytes
  | .send sent => (written sent h, [])
  | .callback _ _ received sent => (written sent (receiveHandler h received), [])
  | .sendData data allocated eventSent => ([], if (sendData data allocated eventSent h).1 then [data] else [])
  | _ => ([], [])

/-- The bytes that the transport has accepted in a run, and the messages that have been queued. -/
def transmitted (h : Handler) : List Call → Bytes × List Bytes
  | [] => ([], [])
  | c :: calls =>
    let (bytes, queued) := transmits h c
    let rest := transmitted (step h c) calls
    (bytes ++ rest.1, queued ++ rest.2)

/-- The connection stays as it is: there is no fatal error, and it is not closed. -/
def stays (h : Handler) : List Call → Bool
  | [] => h.state.established
  | c :: calls => h.state.established && stays (step h c) calls

/-- What a message is on the stream of a connection. -/
def Handler.onStream (h : Handler) (m : Bytes) : Bytes := if h.tcp ∧ h.state = .unsecureConnection then frame m else m

/-- After a run the transport has accepted a part of the messages, from the beginning on. -/
def SendsInOrder (h : Handler) (calls : List Call) : Prop :=
  (transmitted h calls).1 <+: ((transmitted h calls).2.map h.onStream).flatten

/-! ## What is left in the queue -/

def Item.left (item : Item) : Bytes := item.data.drop item.offset

def Handler.pending (h : Handler) : Bytes := (h.queue.map Item.left).flatten

def Sending.left : Sending → Bytes
  | .later item => item.left
  | _ => []

theorem accepted_left (handed : Item → Output) (item : Item) (rs : List Sent)
    (hok : ∀ e, (sendItem handed item rs).2 ≠ .failed e) :
    accepted item rs ++ (sendItem handed item rs).2.left = item.left := by
  induction rs generalizing item with
  | nil =>
    unfold sendItem accepted
    split_ifs with hend
    · rfl
    · exact (drop_eq_nil_of_le (Nat.le_of_not_lt hend)).symm
  | cons r rs ih =>
    unfold sendItem at hok ⊢
    unfold accepted
    split
    · rename_i hlt
      rw [if_pos hlt] at hok
      cases r with
      | bytes n =>
        have hrest := ih { item with offset := item.offset + n } hok
        rw [append_assoc, hrest, Item.left, Item.left, ← drop_drop, take_append_drop]
      | wantsRead => exact ih item hok
      | wait => rfl
      | closeNotify | failed => exact absurd rfl (hok _)
    · rename_i hend
      exact (drop_eq_nil_of_le (Nat.le_of_not_lt hend)).symm

/-- The flag that `send_data` reads tells a plain connection. -/
def Handler.Flagged (h : Handler) : Prop := h.secureConnection = decide (h.state = .secureConnection)

/-- After a step the handler is on the same connection, and what is left of the queue has changed by the bytes that have
been written and those that have been queued. -/
structure Moves (h h' : Handler) (bytes queued : Bytes) : Prop where
  onStream : h'.onStream = h.onStream
  flagged : h.Flagged → h'.Flagged
  pending : bytes ++ h'.pending = h.pending ++ queued

theorem Moves.refl (h : Handler) : Moves h h [] [] := ⟨rfl, id, (append_nil _).symm⟩

theorem moves_sendSocketData {h : Handler} (rs : List Sent) (hs : (sendSocketData rs h).state.established = true) :
    Moves h (sendSocketData rs h) (written rs h) [] := by
  unfold sendSocketData at hs ⊢
  unfold written
  cases hqueue : h.queue with
  | nil => exact .refl h
  | cons item rest =>
  rw [hqueue] at hs
  dsimp only at hs ⊢
  split
  · exact .refl h
  rename_i hcond
  rw [if_neg hcond] at hs
  generalize (if h.state = .secureConnection then (Output.secured · h.session) else Output.plain) = handed at hs ⊢
  have hleft := accepted_left handed item rs
  have hpending : h.pending = item.left ++ (rest.map Item.left).flatten := by rw [Handler.pending, hqueue]; rfl
  cases hsending : (sendItem handed item rs).2 with
  | later left =>
    rw [hsending] at hleft
    refine ⟨rfl, id, ?_⟩
    rw [append_nil, hpending, ← hleft nofun, append_assoc]
    rfl
  | done =>
    rw [hsending] at hleft
    refine ⟨rfl, id, ?_⟩
    rw [append_nil, hpending, ← hleft nofun, append_assoc]
    rfl
  | failed e =>
    rw [hsending] at hs
    cases hs

/-- Receiving leaves the queue alone, unless the connection is closed. -/
theorem receiveHandler_eq {h : Handler} (rs : List Received) (hs : (receiveHandler h rs).state.established = true) :
    ∃ log, receiveHandler h rs = { h with log := log } := by
  fun_induction receiveHandler h rs with
  | case1 | case2 | case3 | case7 | case8 => exact ⟨_, rfl⟩
  | case4 | case5 => cases hs
  | case6 h data rs _ _ ih | case9 h data rs _ _ ih =>
    obtain ⟨log, hlog⟩ := ih hs
    exact ⟨log, hlog⟩

theorem Handler.Flagged.onStream {h : Handler} (hflag : h.Flagged) (hs : h.state.established = true) (m : Bytes) :
    h.onStream m = if h.tcp && !h.secureConnection then frame m else m := by
  rw [Handler.onStream, hflag]
  rcases SocketState.eq_of_established hs with hs | hs <;> simp [hs]

theorem moves_sendData {h : Handler} (hflag : h.Flagged) (data : Bytes) (allocated eventSent : Bool)
    (hshort : (sendData data allocated eventSent h).1 = true → (h.onStream data).length < 65536) :
    Moves h (sendData data allocated eventSent h).2 []
      ((if (sendData data allocated eventSent h).1 then [data] else []).map h.onStream).flatten := by
  unfold sendData at *
  split
  · exact .refl h
  rename_i hcond
  rw [if_neg hcond] at hshort
  have hs : h.state.established = true := by
    simp only [Bool.or_eq_true, Bool.not_eq_true', not_or, Bool.not_eq_false] at hcond
    exact hcond.1.1.2
  have hlength : (h.onStream data).length < 65536 := hshort rfl
  have hbytes : (if h.tcp && !h.secureConnection then lengthBytes (u16 data.length) ++ data else data) = h.onStream data := by
    rw [hflag.onStream hs] at hlength ⊢
    split_ifs with hplain
    · rw [if_pos hplain, length_frame] at hlength
      have hu : u16 data.length = data.length := Nat.mod_eq_of_lt (by omega)
      rw [hu]
      rfl
    · rfl
  have hall : u16 (h.onStream data).length = (h.onStream data).length := Nat.mod_eq_of_lt hlength
  refine ⟨rfl, id, ?_⟩
  rw [hbytes]
  dsimp only
  rw [hall, take_length, Handler.pending, Handler.pending, map_append, flatten_append]
  rfl

/-! ## Runs -/

theorem moves_step {h : Handler} (hflag : h.Flagged) (c : Call) (hs : h.state.established = true)
    (hs' : (step h c).state.established = true) (hshort : ∀ m ∈ (transmits h c).2, (h.onStream m).length < 65536) :
    Moves h (step h c) (transmits h c).1 ((transmits h c).2.map h.onStream).flatten := by
  have hstate := SocketState.eq_of_established hs
  cases c with
  | resolve server started => cases started <;> cases hs'
  | dns success p =>
    have hsame : step h (.dns success p) = h := if_pos (by rcases hstate with h | h <;> simp [h])
    rw [hsame]
    exact .refl h
  | callback p handshake received sent =>
    have hnot : h.state ≠ .handshaking := by rcases hstate with h | h <;> simp [h]
    unfold step at hs' ⊢
    simp only [if_neg hnot, if_pos hs] at hs' ⊢
    by_cases hreceived : (receiveHandler h received).state.established = true
    · rw [if_pos hreceived] at hs' ⊢
      have hmoves := moves_sendSocketData sent hs'
      obtain ⟨log, hlog⟩ := receiveHandler_eq received hreceived
      exact ⟨hmoves.onStream.trans (by rw [hlog]; rfl), fun hflag => hmoves.flagged (by rw [hlog]; exact hflag),
        hmoves.pending.trans (by rw [hlog]; rfl)⟩
    · rw [if_neg hreceived] at hs'
      exact absurd hs' hreceived
  | sendData data allocated eventSent =>
    refine moves_sendData hflag data allocated eventSent fun hsent => hshort data ?_
    simp [transmits, hsent]
  | send sent => exact moves_sendSocketData sent hs'
  | connect p =>
    have hsame : step h (.connect p) = h := by
      rcases hstate with h | h <;> simp [step, socketConnectHandler, h]
    rw [hsame]
    exact .refl h
  | close => cases hs'

/-- What has been accepted and what is left in the queue is all that has been queued, in order. -/
theorem stream_pending {h : Handler} (hflag : h.Flagged) (calls : List Call) (hstays : stays h calls = true)
    (hshort : ∀ m ∈ (transmitted h calls).2, (h.onStream m).length < 65536) :
    ∃ left, (transmitted h calls).1 ++ left = h.pending ++ ((transmitted h calls).2.map h.onStream).flatten := by
  induction calls generalizing h with
  | nil => exact ⟨h.pending, (append_nil _).symm⟩
  | cons c calls ih =>
    obtain ⟨hs, hrest⟩ := Bool.and_eq_true_iff.mp hstays
    have hs' : (step h c).state.established = true := by
      cases calls with
      | nil => exact hrest
      | cons c' calls => exact (Bool.and_eq_true_iff.mp hrest).1
    have hmoves := moves_step hflag c hs hs' fun m hm => hshort m (mem_append_left _ hm)
    obtain ⟨left, hleft⟩ := ih (hmoves.flagged hflag) hrest fun m hm => by
      rw [hmoves.onStream]
      exact hshort m (mem_append_right _ hm)
    refine ⟨left, ?_⟩
    rw [hmoves.onStream] at hleft
    simp only [transmitted, append_assoc, hleft, map_append, flatten_append]
    rw [← append_assoc, hmoves.pending, append_assoc]

/-- On a connection that has come about in any run and stays, the messages are sent in order, with no byte lost or
repeated, if each of them and its length are less than 65536 bytes, and if no secure server has been resolved before a
plain connection. -/
theorem sendsInOrder_of_short {tcp : Bool} {before : List Call} (hqueue : (run (init tcp) before).queue = [])
    (hplain : (run (init tcp) before).state = .unsecureConnection → (run (init tcp) before).secureConnection = false)
    (calls : List Call) (hstays : stays (run (init tcp) before) calls = true)
    (hshort : ∀ m ∈ (transmitted (run (init tcp) before) calls).2, ((run (init tcp) before).onStream m).length < 65536) :
    SendsInOrder (run (init tcp) before) calls := by
  have hinv := inv_run (inv_init tcp) before
  generalize run (init tcp) before = h at *
  have hs : h.state.established = true := by
    cases calls with
    | nil => exact hstays
    | cons c calls => exact (Bool.and_eq_true_iff.mp hstays).1
  have hflag : h.Flagged := by
    unfold Handler.Flagged
    rcases SocketState.eq_of_established hs with hs | hs
    · rw [hplain hs, hs]
      rfl
    · rw [hinv.flagged (.inr hs), hs]
      rfl
  obtain ⟨left, hleft⟩ := stream_pending hflag calls hstays hshort
  refine ⟨left, ?_⟩
  rw [hleft, Handler.pending, hqueue]
  rfl

/-- The calls that connect to a server without security. -/
def connectPlain : List Call := [.resolve none true, .dns true ⟨none, true, true, .success, true, true⟩]

abbrev plain : Handler := run (init true) connectPlain

/-- Two messages, of which the second is queued while the first one is half sent. -/
def twoMessages : List Call :=
  [.sendData [1] true true, .send [.bytes 2, .wait], .sendData [2, 3] true true, .send [.bytes 3], .send [.bytes 6]]

theorem sendsInOrder_twoMessages : SendsInOrder plain twoMessages ∧
    (transmitted plain twoMessages).1 = frame [1] ++ frame [2, 3] :=
  ⟨sendsInOrder_of_short rfl (fun _ => rfl) twoMessages (by decide) (by decide), by decide⟩

/-- A message of one byte, and room for six bytes. -/
def nextMessage : List Call := [.sendData [7] true true, .send [.bytes 1], .send [.bytes 5]]

/-- The queue after a message of 65533 bytes: the item has a length of one byte. -/
def cutMessage : Handler := { plain with queue := [⟨[0], 0, none⟩] }

theorem sendData_long {m : Bytes} (hm : m.length = 65533) : sendData m true true plain = (true, cutMessage) := by
  have hplain : plain = { init true with state := .unsecureConnection, log := [.addressReady] } := rfl
  have hne : m ≠ [] := by
    rintro rfl
    cases hm
  have hbytes : lengthBytes 65533 ++ m = 0 :: ([0, 255, 253] ++ m) := rfl
  simp [sendData, cutMessage, hplain, init, hne, hm, hbytes, SocketState.established, u16]

/-- A plain connection after the address of a secure one has been resolved. -/
def afterSecure : Handler := run (init true) ([.resolve (some .psk) true, .close] ++ connectPlain)

/-- The next message follows this byte; after a secure connection there is no length in front of it. -/
theorem not_sendsInOrder_long :
    (∃ m : Bytes, m.length = 65533 ∧ plain.queue = [] ∧ stays plain (.sendData m true true :: nextMessage) = true ∧
      ¬ SendsInOrder plain (.sendData m true true :: nextMessage)) ∧
    afterSecure.state = .unsecureConnection ∧ afterSecure.queue = [] ∧ stays afterSecure nextMessage = true ∧
      ¬ SendsInOrder afterSecure nextMessage := by
  refine ⟨?_, rfl, rfl, by decide, by unfold SendsInOrder; decide⟩
  obtain ⟨m, hm⟩ : ∃ m : Bytes, m.length = 65533 := ⟨replicate 65533 0, length_replicate⟩
  have hstep : step plain (.sendData m true true) = cutMessage := congrArg Prod.snd (sendData_long hm)
  have hstays : stays cutMessage nextMessage = true := by decide
  have hrest : transmitted cutMessage nextMessage = ([0, 0, 0, 0, 1, 7], [[7]]) := by decide
  have hall : transmitted plain (.sendData m true true :: nextMessage) = ([0, 0, 0, 0, 1, 7], [m, [7]]) := by
    rw [transmitted, hstep, hrest, transmits, sendData_long hm]
    rfl
  refine ⟨m, hm, rfl, (congrArg (stays · nextMessage) hstep).trans hstays, fun h => ?_⟩
  have hframe : frame m = [0, 0, 255, 253] ++ m := by rw [frame, hm]; rfl
  obtain ⟨left, hleft⟩ := h
  rw [hall] at hleft
  have hthird := congrArg (·[2]?) hleft
  have hplain : plain.tcp = true ∧ plain.state = .unsecureConnection := ⟨rfl, rfl⟩
  simp [Handler.onStream, hplain, hframe] at hthird

end MbedCloud.Connection


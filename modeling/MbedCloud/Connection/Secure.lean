import MbedCloud.Connection.Handler

/-!
# Data for a secure server

After a `resolve_server_address` for a server with certificates or a pre-shared key there is no way to the
unsecure state before the next one, `send_data` refuses data until the handshake is done, and
`close_socket` empties the queue before a new connection is made.
-/

namespace MbedCloud.Connection

open List

/-- What is handed to the socket is not for a secure server, and what is handed to the security layer is
handed over in a session. -/
def Output.Protected : Output → Prop
  | .plain item => secure item.server = false
  | .secured _ session => session = true
  | _ => True

/-- Between `close_socket` and the end of the handshake. -/
def SocketState.opening : SocketState → Bool
  | .connectBeingCalled | .connecting | .connected | .handshaking => true
  | _ => false

structure Inv (h : Handler) : Prop where
  sticky : secure h.server = true → h.secureConnection = true
  unsecure : h.state = .unsecureConnection → secure h.server = false
  queued : h.state = .unsecureConnection → ∀ item ∈ h.queue, secure item.server = false
  session : h.state = .secureConnection → h.session = true
  flagged : h.state = .handshaking ∨ h.state = .secureConnection → h.secureConnection = true
  empty : h.state.opening = true → h.queue = []
  log : ∀ o ∈ h.log, o.Protected

theorem SocketState.eq_of_established {s : SocketState} (h : s.established = true) :
    s = .unsecureConnection ∨ s = .secureConnection := by
  cases s with
  | unsecureConnection => exact .inl rfl
  | secureConnection => exact .inr rfl
  | _ => cases h

theorem isSome_of_secure {server : Server} (h : secure server = true) : server.isSome = true := by
  cases server with
  | none => cases h
  | some mode => rfl

/-- The loop hands over the item alone, and puts back what is left of it. -/
theorem sendItem_spec (handed : Item → Output) (item : Item) (rs : List Sent) :
    (∀ o ∈ (sendItem handed item rs).1, ∃ n, o = handed { item with offset := n }) ∧
      ∀ left, (sendItem handed item rs).2 = .later left → left.server = item.server := by
  have hself : ∃ n, handed item = handed { item with offset := n } := ⟨item.offset, rfl⟩
  induction rs generalizing item with
  | nil =>
    unfold sendItem
    split
    · exact ⟨by simpa using hself, by rintro left ⟨⟩; rfl⟩
    · simp
  | cons r rs ih =>
    unfold sendItem
    split
    · cases r with
      | bytes n =>
        obtain ⟨hout, hleft⟩ := ih { item with offset := item.offset + n } ⟨_, rfl⟩
        exact ⟨forall_mem_cons.mpr ⟨hself, hout⟩, hleft⟩
      | wantsRead =>
        obtain ⟨hout, hleft⟩ := ih item hself
        exact ⟨forall_mem_cons.mpr ⟨hself, hout⟩, hleft⟩
      | wait => exact ⟨by simpa using hself, by rintro left ⟨⟩; rfl⟩
      | closeNotify => exact ⟨by simpa using hself, by simp⟩
      | failed => exact ⟨by simpa using hself, by simp⟩
    · simp

namespace Inv

variable {h : Handler}

section

variable (hinv : Inv h)
include hinv

theorem append {out : List Output} (hout : ∀ o ∈ out, o.Protected) : Inv { h with log := h.log ++ out } := by
  refine { hinv with log := fun x hx => ?_ }
  rcases mem_append.mp hx with hx | hx
  · exact hinv.log x hx
  · exact hout x hx

theorem emit {o : Output} (ho : o.Protected) : Inv (h.emit o) := hinv.append (by simpa using ho)

theorem closeSocket : Inv (closeSocket h) :=
  ⟨hinv.sticky, by simp [Connection.closeSocket], by simp [Connection.closeSocket],
    by simp [Connection.closeSocket], by simp [Connection.closeSocket], fun _ => rfl, hinv.log⟩

theorem fail (e : SocketError) : Inv (Connection.closeSocket (h.emit (.socketError e))) :=
  (hinv.emit (o := .socketError e) trivial).closeSocket

/-- A state in which nothing is sent, with an empty queue if need be. -/
theorem to_state {s : SocketState} (hs : s.established = false)
    (hflag : s = .handshaking → h.secureConnection = true) (hempty : s.opening = true → h.queue = [])
    (session : Bool) (retry : Nat) : Inv { h with state := s, session := session, handshakeRetry := retry } := by
  refine ⟨hinv.sticky, ?_, ?_, ?_, ?_, hempty, hinv.log⟩
  case refine_4 =>
    rintro (hhandshaking | rfl)
    · exact hflag hhandshaking
    · cases hs
  all_goals
    rintro rfl
    cases hs

theorem connectedCase (hqueue : h.queue = []) (p : Connect) : Inv (connectedCase p h) := by
  unfold Connection.connectedCase
  split_ifs with hsecure
  · exact hinv.to_state rfl (fun _ => (Bool.and_eq_true_iff.mp hsecure).2) (fun _ => hqueue) false h.handshakeRetry
  · refine .emit (hinv.to_state rfl (fun _ => ?_) (fun _ => hqueue) false h.handshakeRetry) trivial
    exact (Bool.and_eq_true_iff.mp hsecure).2
  · exact hinv.closeSocket.emit trivial
  -- the flag is set for a secure server, so this one is not
  have hplain : secure h.server = false := by
    by_contra hne
    rw [Bool.not_eq_false] at hne
    exact hsecure (by rw [isSome_of_secure hne, hinv.sticky hne]; rfl)
  refine .emit ?_ trivial
  refine ⟨hinv.sticky, fun _ => hplain, ?_, by simp, by simp, by simp [SocketState.opening], hinv.log⟩
  simp [hqueue]

theorem connectingCase (hqueue : h.queue = []) (p : Connect) : Inv (connectingCase p h) := by
  unfold Connection.connectingCase
  have hconnected : Inv { h with state := .connected } := 
    hinv.to_state rfl (by simp) (fun _ => hqueue) h.session h.handshakeRetry
  split
  · split
    · exact hinv.to_state rfl (by simp) (fun _ => hqueue) h.session h.handshakeRetry
    · exact hconnected.connectedCase hqueue p
    · exact hinv.closeSocket.emit trivial
  · exact hconnected.connectedCase hqueue p

theorem socketConnectHandler (p : Connect) : Inv (socketConnectHandler p h) := by
  unfold Connection.socketConnectHandler
  split
  · dsimp only
    split
    · exact hinv.closeSocket.emit trivial
    split_ifs
    · exact hinv.closeSocket.emit trivial
    · exact hinv.closeSocket
    · exact (hinv.closeSocket.to_state rfl (by simp) (fun _ => rfl) false h.handshakeRetry).connectingCase rfl p
  · rename_i hs
    exact hinv.connectingCase (hinv.empty (by rw [hs]; rfl)) p
  · rename_i hs
    exact hinv.connectingCase (hinv.empty (by rw [hs]; rfl)) p
  · rename_i hs
    exact hinv.connectedCase (hinv.empty (by rw [hs]; rfl)) p
  · exact hinv

theorem receiveHandshakeHandler (hs : h.state = .handshaking) (r : Handshake) : Inv (receiveHandshakeHandler r h) := by
  have hretry : ∀ n, Inv { h with handshakeRetry := n } := fun n => { hinv with }
  cases r with
  | done =>
    refine .emit ?_ trivial
    exact ⟨hinv.sticky, by simp, by simp, fun _ => rfl, fun _ => hinv.flagged (.inl hs), by simp [SocketState.opening], hinv.log⟩
  | wantsRead =>
    unfold Connection.receiveHandshakeHandler
    dsimp only
    split
    · exact (hretry 0).fail _
    · exact hretry _
  | _ => exact (hretry 0).fail _

theorem receiveHandler (rs : List Received) : Inv (receiveHandler h rs) := by
  fun_induction Connection.receiveHandler h rs with
  | case1 | case2 | case7 => exact hinv
  | case3 | case8 => exact hinv.emit trivial
  | case4 | case5 => exact hinv.fail _
  | case6 h data rs _ _ ih =>
    refine ih (hinv.append fun o ho => ?_)
    unfold shimmedOut at ho
    split at ho
    · dsimp only at ho
      split at ho
      · rw [mem_singleton.mp ho]
        trivial
      · cases ho
    · cases ho
  | case9 _ _ _ _ _ ih => exact ih (hinv.emit trivial)

theorem sendSocketData (rs : List Sent) : Inv (sendSocketData rs h) := by
  unfold Connection.sendSocketData
  split
  · exact hinv
  rename_i item rest hqueue
  split
  · exact hinv
  rename_i hcond
  simp only [Bool.or_eq_true, Bool.not_eq_true', not_or, Bool.not_eq_false] at hcond
  have hmem : item ∈ h.queue := by simp [hqueue]
  have hopening : h.state.opening = true → False := fun hs => by simp [hinv.empty hs] at hmem
  dsimp only
  generalize hhanded : (if h.state = .secureConnection then (Output.secured · h.session)
    else Output.plain) = handed
  obtain ⟨hout, hleft⟩ := sendItem_spec handed item rs
  have hrest : Inv { h with queue := rest, log := h.log ++ (sendItem handed item rs).1 } := by
    refine Inv.append (h := { h with queue := rest }) ?_ fun o ho => ?_
    · refine { hinv with queued := fun hs x hx => ?_, empty := fun hs => (hopening hs).elim }
      exact hinv.queued hs x (by simp [hqueue, hx])
    obtain ⟨n, rfl⟩ := hout o ho
    rcases SocketState.eq_of_established hcond.2 with hs | hs
    · rw [← hhanded, if_neg (by simp [hs])]
      exact hinv.queued hs item hmem
    · rw [← hhanded, if_pos hs]
      exact hinv.session hs
  split
  · rename_i left hsending
    refine { hrest with queued := fun hs x hx => ?_, empty := fun hs => (hopening hs).elim }
    rcases mem_cons.mp hx with rfl | hx
    · rw [hleft x hsending]
      exact hinv.queued hs item hmem
    · exact hrest.queued hs x hx
  · exact hrest.emit trivial
  · exact hrest.fail _

theorem sendData (data : Bytes) (allocated eventSent : Bool) : Inv (sendData data allocated eventSent h).2 := by
  unfold Connection.sendData
  split
  · exact hinv
  rename_i hcond
  simp only [Bool.or_eq_true, Bool.not_eq_true', not_or, Bool.not_eq_false] at hcond
  refine { hinv with queued := fun hs x hx => ?_, empty := fun hs => ?_ }
  · rcases mem_append.mp hx with hx | hx
    · exact hinv.queued hs x hx
    · rw [mem_singleton.mp hx]
      exact hinv.unsecure hs
  · rcases SocketState.eq_of_established hcond.1.1.2 with heq | heq
    all_goals
      rw [heq] at hs
      cases hs

theorem step (c : Call) : Inv (step h c) := by
  cases c with
  | resolve server started =>
    have hresolving : Inv { h with
        state := .dnsResolving
        server := server
        secureConnection := h.secureConnection || secure server } := by
      refine ⟨fun hs => ?_, by simp, by simp, by simp, by simp, by simp [SocketState.opening], hinv.log⟩
      simp only [hs, Bool.or_true]
    unfold Connection.step resolveServerAddress
    dsimp only
    split
    · exact hresolving
    · exact hresolving.emit trivial
  | dns success p =>
    unfold Connection.step handleDnsResult
    dsimp only
    split_ifs
    · exact hinv
    · exact (hinv.to_state rfl (by simp) (by simp [SocketState.opening]) _ _).socketConnectHandler p
    · exact hinv.emit trivial
  | callback p handshake received sent =>
    have hfirst : Inv (if h.state = .handshaking then Connection.receiveHandshakeHandler handshake h
        else if h.state.established then Connection.receiveHandler h received
        else Connection.socketConnectHandler p h) := by
      split_ifs with hs
      · exact hinv.receiveHandshakeHandler hs handshake
      · exact hinv.receiveHandler received
      · exact hinv.socketConnectHandler p
    have hsend : ∀ h', Inv h' → Inv (if h'.state.established then Connection.sendSocketData sent h' else h') := by
      intro h' hh'
      split
      · exact hh'.sendSocketData sent
      · exact hh'
    exact hsend _ hfirst
  | sendData data allocated eventSent => exact hinv.sendData data allocated eventSent
  | send sent => exact hinv.sendSocketData sent
  | connect p => exact hinv.socketConnectHandler p
  | close => exact hinv.closeSocket

end

end Inv

theorem inv_run {h : Handler} (hinv : Inv h) (calls : List Call) : Inv (run h calls) := by
  induction calls generalizing h with
  | nil => exact hinv
  | cons c calls ih => exact ih (hinv.step c)

theorem inv_init (tcp : Bool) : Inv (init tcp) := by
  constructor
  all_goals simp [init, secure, SocketState.opening]

/-- In every run, data that is queued for a secure server is never handed to the socket, and data is
handed to the security layer only in a session. -/
theorem secure_data_protected (tcp : Bool) (calls : List Call) :
    ∀ o ∈ (run (init tcp) calls).log, o.Protected := (inv_run (inv_init tcp) calls).log

/-- A connection to a server with a pre-shared key, and one byte for it. -/
def pskCalls : List Call :=
  [.resolve (some .psk) true, .dns true ⟨none, true, true, .success, true, true⟩,
    .callback ⟨none, true, true, .success, true, true⟩ .done [] [], .sendData [7] true true, .send [.bytes 1]]

theorem secure_data_protected_psk : .secured ⟨[7], 0, some .psk⟩ true ∈ (run (init true) pskCalls).log ∧
    (Output.secured ⟨[7], 0, some .psk⟩ true).Protected :=
  ⟨by decide, secure_data_protected true pskCalls _ (by decide)⟩

end MbedCloud.Connection


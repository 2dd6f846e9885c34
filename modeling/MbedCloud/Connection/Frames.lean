import MbedCloud.Connection.Handler

/-!
# Frames on plain TCP

On a plain TCP connection each message has its length in front. `receive_handler` takes what one call of
`pal_recv` returns for one frame: it hands over at most one message of it, drops the rest, and keeps
nothing for the next call; less than four bytes end the connection.
-/

namespace MbedCloud.Connection

open List

def frame (m : Bytes) : Bytes := lengthBytes m.length ++ m

def Output.message? : Output → Option Bytes
  | .dataAvailable m => some m
  | _ => none

def delivered (log : List Output) : List Bytes := log.filterMap Output.message?

/-- Calls of `receive_handler` while the connection is there, each with the pieces that have come. -/
def receiveAll (h : Handler) (calls : List (List Bytes)) : Handler :=
  calls.foldl (fun h pieces =>
    if h.state.established then receiveHandler h (pieces.map .bytes) else h) h

/-! ## One piece -/

theorem lengthOf_lengthBytes {n : Nat} (hn : n < 4294967296) :
    lengthOf (UInt8.ofNat (n / 16777216)) (UInt8.ofNat (n / 65536)) (UInt8.ofNat (n / 256)) (UInt8.ofNat n) = n := by
  simp only [lengthOf, UInt8.toNat_ofNat']
  omega

theorem lengthBytes_lengthOf (b0 b1 b2 b3 : UInt8) : lengthBytes (lengthOf b0 b1 b2 b3) = [b0, b1, b2, b3] := by
  have h0 := b0.toNat_lt
  have h1 := b1.toNat_lt
  have h2 := b2.toNat_lt
  have h3 := b3.toNat_lt
  simp only [lengthBytes, lengthOf, map_cons, map_nil, List.cons.injEq, and_true, ← UInt8.toNat_inj, UInt8.toNat_ofNat']
  omega

theorem length_frame (m : Bytes) : (frame m).length = 4 + m.length := by
  simp [frame, lengthBytes]
  omega

theorem shimmedOut_frame {m : Bytes} (hpos : 1 ≤ m.length) (hmax : m.length < 4294967296) :
    shimmedOut (frame m) = [.dataAvailable m] := by
  simp only [frame, lengthBytes, map_cons, map_nil, cons_append, nil_append, shimmedOut, lengthOf_lengthBytes hmax]
  rw [if_pos ⟨hpos, Nat.le_refl _⟩, take_length]

/-- A piece gives no message, or one that it has room for; if there is nothing else in it, it is the
frame of this message. -/
theorem delivered_shimmedOut (p : Bytes) : delivered (shimmedOut p) = [] ∨
      ∃ m, delivered (shimmedOut p) = [m] ∧ (frame m).length ≤ p.length ∧ ((frame m).length = p.length → p = frame m) := by
  unfold shimmedOut
  split
  · rename_i b0 b1 b2 b3 bs
    dsimp only
    split_ifs with hlen
    · refine .inr ⟨_, rfl, ?_, fun heq => ?_⟩
      · rw [length_frame, length_take, Nat.min_eq_left hlen.2]
        simp only [length_cons]
        omega
      rw [length_frame, length_take, Nat.min_eq_left hlen.2] at heq
      simp only [length_cons] at heq
      rw [frame, length_take, Nat.min_eq_left hlen.2, lengthBytes_lengthOf, take_of_length_le (by omega)]
      rfl
    · exact .inl rfl
  · exact .inl rfl

/-! ## All pieces -/

/-- The messages of the pieces, up to the first one that ends the connection. -/
def messages : List Bytes → List Bytes
  | [] => []
  | p :: ps => if p.length < 4 then [] else delivered (shimmedOut p) ++ messages ps

theorem messages_frames {fs : List Bytes}
    (h : ∀ f ∈ fs, 1 ≤ f.length ∧ f.length ≤ bufferLength - 4) : messages (fs.map frame) = fs := by
  induction fs with
  | nil => rfl
  | cons f fs ih =>
    have hf := h f (.head _)
    have hmax : f.length < 4294967296 := Nat.lt_of_le_of_lt hf.2 (by decide)
    rw [map_cons, messages, if_neg (by rw [length_frame]; omega), shimmedOut_frame hf.1 hmax,
      ih fun g hg => h g (mem_cons_of_mem f hg)]
    rfl

/-- The pieces have room for the frames of their messages; with nothing else in them they are these
frames. -/
theorem messages_spec {ps : List Bytes} (h : ∀ p ∈ ps, p ≠ []) :
    ((messages ps).map frame).flatten.length ≤ ps.flatten.length ∧
      (((messages ps).map frame).flatten.length = ps.flatten.length → ps = (messages ps).map frame) := by
  induction ps with
  | nil => exact ⟨Nat.le_refl _, fun _ => rfl⟩
  | cons p ps ih =>
    obtain ⟨hle, heq⟩ := ih fun q hq => h q (mem_cons_of_mem p hq)
    have hp := length_pos_iff.mpr (h p (.head _))
    unfold messages
    split
    · simp only [map_nil, flatten_nil, length_nil, flatten_cons, length_append]
      omega
    rcases delivered_shimmedOut p with hnone | ⟨m, hm, hroom, hframe⟩
    · rw [hnone, nil_append]
      simp only [flatten_cons, length_append]
      omega
    rw [hm]
    simp only [cons_append, nil_append, map_cons, flatten_cons, length_append]
    refine ⟨by omega, fun hall => ?_⟩
    rw [← hframe (by omega), ← heq (by omega)]

/-- A plain TCP connection, or what is left of it. -/
structure PlainTcp (h : Handler) : Prop where
  tcp : h.tcp = true
  state : h.state ≠ .secureConnection

/-- The messages that the observer will have been given after further pieces. -/
def deliveredAfter (h : Handler) (ps : List Bytes) : List Bytes :=
  delivered h.log ++ if h.state.established then messages ps else []

theorem deliveredAfter_receiveHandler {h : Handler} (hh : PlainTcp h) (hs : h.state.established = true) (ps qs : List Bytes) :
    PlainTcp (receiveHandler h (ps.map .bytes)) ∧
      deliveredAfter (receiveHandler h (ps.map .bytes)) qs = deliveredAfter h (ps ++ qs) := by
  induction ps generalizing h with
  | nil => exact ⟨hh, rfl⟩
  | cons p ps ih =>
    rw [map_cons, receiveHandler, if_pos (by simp [hh.tcp, hh.state])]
    by_cases hp : p.length < 4
    · rw [if_pos hp]
      refine ⟨⟨hh.tcp, by simp [closeSocket]⟩, ?_⟩
      simp [deliveredAfter, closeSocket, Handler.emit, delivered, Output.message?, messages, hp, SocketState.established]
    · rw [if_neg hp]
      obtain ⟨hh', heq⟩ := ih (h := { h with log := h.log ++ shimmedOut p }) ⟨hh.tcp, hh.state⟩ hs
      refine ⟨hh', heq.trans ?_⟩
      simp [deliveredAfter, delivered, hs, messages, hp]

theorem deliveredAfter_receiveAll {h : Handler} (hh : PlainTcp h) (calls : List (List Bytes)) :
    delivered (receiveAll h calls).log = deliveredAfter h calls.flatten := by
  induction calls generalizing h with
  | nil => simp [receiveAll, deliveredAfter, messages]
  | cons ps calls ih =>
    rw [receiveAll, foldl_cons, flatten_cons]
    by_cases hs : h.state.established = true
    · obtain ⟨hh', heq⟩ := deliveredAfter_receiveHandler hh hs ps calls.flatten
      rw [if_pos hs, ← heq]
      exact ih hh'
    · rw [if_neg hs]
      refine (ih hh).trans ?_
      simp [deliveredAfter, hs]

/-- With plain TCP the observer gets the messages that the peer sends, each once and in order, if and only
if each call of `pal_recv` returns exactly one frame. -/
theorem delivers_iff_whole_frames {h : Handler} (htcp : h.tcp = true)
    (hs : h.state = .unsecureConnection) (frames : List (List UInt8)) (calls : List (List (List UInt8)))
    (hframes : ∀ f ∈ frames, 1 ≤ f.length ∧ f.length ≤ bufferLength - 4)
    (hpieces : ∀ p ∈ calls.flatten, p ≠ [] ∧ p.length ≤ bufferLength)
    (hstream : calls.flatten.flatten = (frames.map frame).flatten) :
    delivered (receiveAll h calls).log = delivered h.log ++ frames ↔ calls.flatten = frames.map frame := by
  rw [deliveredAfter_receiveAll ⟨htcp, by simp [hs]⟩, deliveredAfter, if_pos (by rw [hs]; rfl), append_cancel_left_eq]
  constructor
  · intro heq
    have hspec := (messages_spec fun p hp => (hpieces p hp).1).2
    rw [heq, hstream] at hspec
    exact hspec rfl
  · intro heq
    rw [heq, messages_frames hframes]

def plainTcp : Handler := { init true with state := .unsecureConnection }

theorem delivers_two_frames : delivered (receiveAll plainTcp [[frame [1], frame [2, 3]]]).log = [[1], [2, 3]] :=
  (delivers_iff_whole_frames (h := plainTcp) rfl rfl [[1], [2, 3]] [[frame [1], frame [2, 3]]] (by decide)
    (by decide) rfl).mpr rfl

/-- A frame that is cut behind its length is lost, and the rest of it ends the connection. -/
theorem not_delivers_cut_frame : [[0, 0, 0, 1], [7]].flatten = frame [7] ∧
      delivered (receiveAll plainTcp [[[0, 0, 0, 1], [7]]]).log = [] ∧
      (receiveAll plainTcp [[[0, 0, 0, 1], [7]]]).state = .disconnected := by
  decide

end MbedCloud.Connection


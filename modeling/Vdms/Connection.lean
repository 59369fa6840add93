import Vdms.Imp.LittleEndian
import Vdms.Imp.Socket

/-!
# Messages over a Connection

`Connection::send_message` and `Connection::recv_message` transfer a message as its size, in the
four bytes of a `uint32_t`, followed by the message itself. Both ends run on machines of the
same byte order. `_buffer_size_limit` is left out: it is raised to the size of the message and
refuses nothing.

## Main results

* `sendMessage_sends`, `recvMessage_accepts`: the two calls fit together, however the socket
  splits the bytes.
* `messages_framed`: what holds in every interleaving of the calls of the two ends.
-/

namespace Vdms

open Imp

/-- The exceptions of a connection. -/
inductive ExceptionComm where
  | InvalidMessageSize
  | WriteFail
  | ReadFail
  | ConnectionShutDown
  deriving DecidableEq

/-- `MAX_BUFFER_SIZE`. -/
def maxBufferSize : ℕ := 1024 * 1024 * 1024

/-- The bytes of a `uint32_t`. -/
def sizeBytes (size : ℕ) : List UInt8 := leBytes 4 size

/-- A message of a size that a connection transfers. -/
abbrev Message := { data : List UInt8 // data.length ≤ maxBufferSize }

instance : Inhabited Message := ⟨⟨[], Nat.zero_le _⟩⟩

namespace Connection

/-- The loop of `send_message`, of which the passes so far have sent `bytesSent` bytes. -/
def sendBody (data : List UInt8) (bytesSent : ℕ) : Sock ExceptionComm Unit :=
  if _h : bytesSent < data.length then
    .send (data.drop bytesSent) fun ret =>
      match ret with
      | none => .throw .WriteFail
      | some n => sendBody data (bytesSent + n.count)
  else .ret ()
termination_by data.length - bytesSent
decreasing_by
  have hpos := n.pos (by rw [List.length_drop]; omega)
  omega

/-- `Connection::send_message`. -/
def sendMessage (data : List UInt8) : Sock ExceptionComm Unit :=
  if data.length > maxBufferSize then .throw .InvalidMessageSize
  else .send (sizeBytes data.length) fun ret =>
    match ret with
    | none => .throw .WriteFail
    | some n => if n.count ≠ 4 then .throw .WriteFail else sendBody data 0

/-- `recv_and_check`, with what the passes so far have received. -/
def recvAndCheck (size : ℕ) (buffer : List UInt8) : Sock ExceptionComm (List UInt8) :=
  if _h : buffer.length < size then
    .recv (size - buffer.length) fun ret =>
      match ret with
      | none => .throw .ReadFail
      | some c =>
        if _hc : c.bytes = [] then .throw .ConnectionShutDown
        else recvAndCheck size (buffer ++ c.bytes)
  else .ret buffer
termination_by size - buffer.length
decreasing_by
  have hpos := List.length_pos_iff.2 _hc
  rw [List.length_append]
  omega

/-- `Connection::recv_message`. -/
def recvMessage : Sock ExceptionComm Message := do
  let size ← recvAndCheck 4 []
  if size.length ≠ 4 then .throw .ReadFail
  else if hmax : ofLeBytes size > maxBufferSize then .throw .InvalidMessageSize
  else do
    let buffer ← recvAndCheck (ofLeBytes size) []
    if hsize : ofLeBytes size ≠ buffer.length then .throw .ReadFail
    else .ret ⟨buffer, by omega⟩

/-- The bytes of a message on the wire. -/
def frame (data : List UInt8) : List UInt8 := sizeBytes data.length ++ data

@[simp] theorem length_sizeBytes (size : ℕ) : (sizeBytes size).length = 4 :=
  length_leBytes 4 size

theorem ofLeBytes_sizeBytes {size : ℕ} (h : size < 2 ^ 32) :
    ofLeBytes (sizeBytes size) = size :=
  ofLeBytes_leBytes_of_lt h

/-! ### Sending -/

theorem sendBody_sends {data : List UInt8} {i : ℕ} (hi : i ≤ data.length) :
    (sendBody data i).Sends (data.drop i) := by
  induction hn : data.length - i using Nat.strongRecOn generalizing i with
  | ind n ih =>
      rw [sendBody]
      split
      · rename_i hlt
        refine .send (List.prefix_refl _) (fun t => ?_) (.throw _ _)
        have hle : t.count ≤ data.length - i := Nat.le_trans t.le (Nat.le_of_eq List.length_drop)
        have hpos := t.pos (by rw [List.length_drop]; omega)
        rw [List.drop_drop]
        exact ih _ (by omega) (by omega) rfl
      · rw [List.drop_eq_nil_iff.2 (by omega)]
        exact .ret ()

/-- All that `send_message` sends is the frame of the message, and it returns only after the
last byte of it. -/
theorem sendMessage_sends (data : List UInt8) : (sendMessage data).Sends (frame data) := by
  rw [sendMessage]
  split
  · exact .throw _ _
  · refine .send (List.prefix_append _ _) (fun t => ?_) (.throw _ _)
    dsimp only
    split
    · exact .throw _ _
    · have hfour : t.count = 4 := by omega
      rw [frame, hfour.trans (length_sizeBytes _).symm, List.drop_left]
      exact sendBody_sends (Nat.zero_le _)

/-! ### Receiving -/

/-- `recv_and_check` receives exactly the bytes that are left. -/
theorem recvAndCheck_accepts {size : ℕ} {buffer rest : List UInt8}
    (h : buffer.length + rest.length = size) :
    (recvAndCheck size buffer).Accepts rest (buffer ++ rest) := by
  induction hn : rest.length using Nat.strongRecOn generalizing buffer rest with
  | ind n ih =>
      rw [recvAndCheck]
      split
      · rename_i hlt
        refine .recv (by omega) (by omega) (fun c hne hpre => ?_)
          ⟨.ConnectionShutDown, ?_⟩ ⟨.ReadFail, rfl⟩
        · obtain ⟨more, rfl⟩ := hpre
          have hpos := List.length_pos_iff.2 hne
          rw [List.length_append] at h hn
          dsimp only
          rw [dif_neg hne, List.drop_left, ← List.append_assoc]
          exact ih more.length (by omega) (by rw [List.length_append]; omega) rfl
        · exact dif_pos rfl
      · obtain rfl : rest = [] := List.length_eq_zero_iff.1 (by omega)
        rw [List.append_nil]
        exact .ret buffer

/-- `recv_message` returns the message of a frame, however the socket splits it. -/
theorem recvMessage_accepts (m : Message) : recvMessage.Accepts (frame m) m := by
  have hmax : m.1.length < 2 ^ 32 := Nat.lt_of_le_of_lt m.2 (by decide)
  refine Sock.Accepts.bind (recvAndCheck_accepts (by simp)) ?_
  simp only [List.nil_append, length_sizeBytes, ne_eq, not_true_eq_false, if_false,
    ofLeBytes_sizeBytes hmax, gt_iff_lt, Nat.not_lt.2 m.2, dite_false]
  have hbody := @recvAndCheck_accepts m.1.length [] m.1 (by simp)
  have hret := Sock.Accepts.bind hbody (f := fun buffer =>
    if hsize : m.1.length ≠ buffer.length then .throw .ReadFail
    else .ret (⟨buffer, by have := m.2; omega⟩ : Message)) (y := []) (b := m) ?_
  · rwa [List.append_nil] at hret
  · simp only [List.nil_append, ne_eq, not_true_eq_false, dite_false]
    exact .ret _

/-! ### The two ends -/

/-- The framing of the two calls. -/
def framing : Framing ExceptionComm Message where
  frame m := frame m.1
  put m := sendMessage m.1
  get := recvMessage
  frame_ne_nil m := by simp [frame, sizeBytes, leBytes]
  put_sends m := sendMessage_sends m.1
  get_accepts := recvMessage_accepts

open Pipe

/-- **Messages are transferred as they are.** In every interleaving of the calls of the two ends,
however the bytes are split and wherever the stream fails: the messages returned are the first
of those passed; all of the frames of these have been received, and nothing else is under way;
with no exception and no failure, none is lost; and over a stream that has failed, the call of
the receiver ends, with the next message if all of it has arrived, or with an exception. -/
theorem messages_framed {s : Pipe ExceptionComm Message} (h : Reachable framing s) :
    s.returned <+: s.passed ∧
    (framing.stream s.returned <+: s.consumed ∧
      s.consumed ++ s.wire <+: framing.stream s.passed) ∧
    (s.sender = .idle → s.down = false → (∀ e, s.receiver ≠ .thrown e) → s.wire = [] →
      s.returned = s.passed) ∧
    (∀ p, s.down = true → s.receiver = .calling p →
      Inevitable (ReceiverStep framing) (Ended framing s) s) :=
  ⟨h.returned_prefix, h.consumed_prefix, h.returned_eq, fun _ hdown hp => h.call_ends hdown hp⟩

/-- The stream fails after two bytes of the size of a message of one byte. -/
theorem messages_framed_cut :
    ∃ s : Pipe ExceptionComm Message, s.passed = [⟨[7], by decide⟩] ∧ s.wire = [1, 0] ∧
      s.returned <+: s.passed ∧ Inevitable (ReceiverStep framing) (Ended framing s) s := by
  have hpass : Reachable framing _ := .tail .refl (.sender (.call ⟨[7], by decide⟩ rfl))
  have hsize : Reachable framing _ := hpass.tail
    (.sender (.send ⟨4, by decide, by decide⟩ rfl))
  have hfail : Reachable framing _ := hsize.tail (.fails _ 2)
  have hcall : Reachable framing _ := hfail.tail (.receiver (.call rfl))
  have hcalling : ∃ p, Party.after recvMessage = .calling p := by
    rw [recvMessage]
    rw [recvAndCheck]
    exact ⟨_, rfl⟩
  obtain ⟨p, hp⟩ := hcalling
  obtain ⟨hpre, _, _, hends⟩ := messages_framed hcall
  exact ⟨_, rfl, rfl, hpre, hends p rfl hp⟩

end Connection

end Vdms

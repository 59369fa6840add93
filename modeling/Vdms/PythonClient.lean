import Vdms.Connection

/-!
# The Python Client

`vdms.query` of the Python client sends a message with two calls of `send` and takes its answer
with a call of `recv` for the size and a loop for the rest. The results of the two `send` are
not looked at, so what they did not transfer is never sent; and a size that comes in parts
cannot be unpacked.

## Main results

* `query_framed_iff`: a query is transmitted and answered as it should be exactly if these three
  calls transfer all that they are asked for, and the size of the message can be packed.
-/

namespace Vdms

open Imp Imp.Sock

/-- What the client uses of other libraries: protocol buffers and JSON. -/
class PyLibraries where
  serializeToString : String → List (List UInt8) → List UInt8
  parseFromString : List UInt8 → Option (String × List (List UInt8))
  Value : Type
  loads : String → Option Value

/-- The exceptions of the client. -/
inductive PyError where
  | structError
  | OSError
  | DecodeError
  | JSONDecodeError
  deriving DecidableEq

namespace PythonClient

section

variable [PyLibraries]

/-- What a query returns. -/
inductive Returned where
  | notConnected
  | none
  | response (last_response : PyLibraries.Value) (blobs : List (List UInt8))

/-- `conn.send(data)`, without its result. -/
def send (data : List UInt8) : Sock PyError Unit :=
  .send data fun ret =>
    match ret with
    | none => .throw .OSError
    | some _ => .ret ()

/-- `conn.recv(size)`. -/
def recv (size : ℕ) : Sock PyError (List UInt8) :=
  .recv size fun ret =>
    match ret with
    | none => .throw .OSError
    | some c => .ret c.bytes

/-- `struct.pack("@I", n)`. -/
def pack (n : ℕ) : Sock PyError (List UInt8) :=
  if n < 2 ^ 32 then .ret (sizeBytes n) else .throw .structError

/-- `struct.unpack("@I", bytes)[0]`. -/
def unpack (bytes : List UInt8) : Sock PyError ℕ :=
  if bytes.length = 4 then .ret (ofLeBytes bytes) else .throw .structError

/-- The loop of `query`, which gives up at the end of the stream. -/
def receive (recvLen : ℕ) (response : List UInt8) : Sock PyError (Option (List UInt8)) :=
  if _h : response.length < recvLen then
    .recv (recvLen - response.length) fun ret =>
      match ret with
      | none => .throw .OSError
      | some packet =>
        if _hp : packet.bytes = [] then .ret none
        else receive recvLen (response ++ packet.bytes)
  else .ret (some response)
termination_by recvLen - response.length
decreasing_by
  have hpos := List.length_pos_iff.2 _hp
  rw [List.length_append]
  omega

/-- From the message to the answer to it. -/
def exchange (data : List UInt8) : Sock PyError (Option (List UInt8)) := do
  let sentLen ← pack data.length
  send sentLen
  send data
  let recvLen ← recv 4
  let recvLen ← unpack recvLen
  receive recvLen []

/-- What the client makes of an answer. -/
def answer (response : List UInt8) : Sock PyError Returned :=
  match PyLibraries.parseFromString response with
  | none => .throw .DecodeError
  | some (json, blobs) =>
    match PyLibraries.loads json with
    | none => .throw .JSONDecodeError
    | some last_response => .ret (.response last_response blobs)

/-- The message of a query: a blob is given by itself, or with others in a list. -/
def payload (query : String) (blobArray : List (List UInt8 ⊕ List (List UInt8))) :
    List UInt8 :=
  PyLibraries.serializeToString query
    (blobArray.flatMap fun im =>
      match im with
      | .inl blob => [blob]
      | .inr blobs => blobs)

/-- `vdms.query`, of a query that is a string. -/
def query (connected : Bool) (query : String)
    (blobArray : List (List UInt8 ⊕ List (List UInt8))) : Sock PyError Returned :=
  if !connected then .ret .notConnected
  else do
    match ← exchange (payload query blobArray) with
    | none => .ret .none
    | some response => answer response

end

/-- What the calls received. -/
def received : List Event → List (List UInt8)
  | [] => []
  | .sent _ _ :: events => received events
  | .received _ bytes :: events => bytes :: received events

/-- The size can be packed, each `send` transfers all of its bytes, and the first `recv` those
of a size. -/
structure WholeTransfers (data : List UInt8) (events : List Event) : Prop where
  fits : data.length < 2 ^ 32
  sends : ∀ bytes count, Event.sent bytes count ∈ events → count = bytes.length
  size : ∀ bytes, (received events).head? = some bytes → bytes.length = 4

/-! ### The loop -/

/-- The loop receives the rest of the response, and sends nothing. -/
theorem receive_run {recvLen : ℕ} {response rest left : List UInt8} {events : List Event}
    {r : Sock PyError (Option (List UInt8))} (hlen : response.length + rest.length = recvLen)
    (h : Run (receive recvLen response) rest events r left) :
    r = .ret (some (response ++ rest)) ∧ left = [] ∧ transmitted events = [] ∧
      ∀ bytes count, Event.sent bytes count ∉ events := by
  induction hn : rest.length using Nat.strongRecOn generalizing response rest events with
  | ind n ih =>
      rw [receive] at h
      split at h
      · cases h with
        | @recv _ incoming _ _ _ _ c hne h =>
            have hpos := List.length_pos_iff.2 hne
            rw [List.length_append] at hlen hn
            dsimp only at h
            rw [dif_neg hne] at h
            obtain ⟨hr, hleft, htransmitted, hsent⟩ := ih incoming.length (by omega)
              (by rw [List.length_append]; omega) h rfl
            refine ⟨by rw [hr, List.append_assoc], hleft, htransmitted, fun b n hmem => ?_⟩
            rcases List.mem_cons.1 hmem with heq | hmem
            · cases heq
            · exact hsent b n hmem
      · obtain rfl : rest = [] := List.length_eq_zero_iff.1 (by omega)
        cases h with
        | ret => exact ⟨by rw [List.append_nil], rfl, rfl, fun _ _ h => by cases h⟩

/-! ### The other calls -/

section Calls

variable {α : Type} {data incoming left : List UInt8} {events : List Event} {r : Sock PyError α}

theorem send_run {f : Unit → Sock PyError α}
    (h : Run (send data >>= f) incoming events r left) :
    ∃ n events', n ≤ data.length ∧ events = .sent data n :: events' ∧
      Run (f ()) incoming events' r left := by
  cases h with
  | send t h => exact ⟨t.count, _, t.le, rfl, h⟩

theorem recv_run {size : ℕ} {f : List UInt8 → Sock PyError α}
    (h : Run (recv size >>= f) incoming events r left) :
    ∃ bytes between events', bytes.length ≤ size ∧ incoming = bytes ++ between ∧
      events = .received size bytes :: events' ∧ Run (f bytes) between events' r left := by
  cases h with
  | recv c _ h => exact ⟨c.bytes, _, _, c.le, rfl, rfl, h⟩

theorem throw_run {e : PyError} (h : Run (Sock.throw e) incoming events r left) :
    events = [] ∧ r = .throw e := by
  cases h with
  | throw => exact ⟨rfl, rfl⟩

theorem pack_run {n : ℕ} {f : List UInt8 → Sock PyError α}
    (h : Run (pack n >>= f) incoming events r left) :
    (n < 2 ^ 32 ∧ Run (f (sizeBytes n)) incoming events r left) ∨
      ¬ n < 2 ^ 32 ∧ events = [] ∧ r = .throw .structError := by
  rw [pack] at h
  split at h
  · exact .inl ⟨‹_›, h⟩
  · exact .inr ⟨‹_›, throw_run h⟩

theorem unpack_run {bytes : List UInt8} {f : ℕ → Sock PyError α}
    (h : Run (unpack bytes >>= f) incoming events r left) :
    (bytes.length = 4 ∧ Run (f (ofLeBytes bytes)) incoming events r left) ∨
      bytes.length ≠ 4 ∧ events = [] ∧ r = .throw .structError := by
  rw [unpack] at h
  split at h
  · exact .inl ⟨‹_›, h⟩
  · exact .inr ⟨‹_›, throw_run h⟩

end Calls

variable {data : List UInt8} {reply : Message} {left : List UInt8} {events : List Event}

/-- What an exchange transmits and returns, with the size of the answer in one piece. -/
theorem exchange_run {r : Sock PyError (Option (List UInt8))}
    (h : Run (exchange data) (Connection.frame reply.1) events r left) :
    (¬ data.length < 2 ^ 32 ∧ events = [] ∧ r = .throw .structError) ∨
    ∃ n k bytes events', data.length < 2 ^ 32 ∧ n ≤ 4 ∧ k ≤ data.length ∧
      events = .sent (sizeBytes data.length) n :: .sent data k :: .received 4 bytes :: events' ∧
      transmitted events' = [] ∧ (∀ b m, Event.sent b m ∉ events') ∧
      (bytes.length ≠ 4 ∧ r = .throw .structError ∨
        bytes.length = 4 ∧ left = [] ∧ r = .ret (some reply.1)) := by
  rw [exchange] at h
  rcases pack_run h with ⟨hfits, hsize⟩ | ⟨hfits, hevents, hr⟩
  · obtain ⟨n, es₁, hn, rfl, hdata⟩ := send_run hsize
    obtain ⟨k, es₂, hk, rfl, hrecv⟩ := send_run hdata
    obtain ⟨bytes, between, es, hbytes, hincoming, rfl, hunpack⟩ := recv_run hrecv
    rw [Connection.length_sizeBytes] at hn
    refine .inr ⟨n, k, bytes, es, hfits, hn, hk, rfl, ?_⟩
    rcases unpack_run hunpack with ⟨hfour, hloop⟩ | ⟨hfour, rfl, hr⟩
    · have hsplit := List.append_inj hincoming (by rw [Connection.length_sizeBytes, hfour])
      obtain ⟨rfl, rfl⟩ := hsplit
      rw [Connection.ofLeBytes_sizeBytes (Nat.lt_of_le_of_lt reply.2 (by decide))] at hloop
      obtain ⟨hr, hleft, htransmitted, hsent⟩ := receive_run (by simp) hloop
      exact ⟨htransmitted, hsent, .inr ⟨hfour, hleft, hr⟩⟩
    · exact ⟨rfl, fun _ _ => List.not_mem_nil, .inl ⟨hfour, hr⟩⟩
  · exact .inl ⟨hfits, hevents, hr⟩

/-- Parts of a size and of a message are all of them only if they are as long. -/
theorem take_append_take_eq {size : List UInt8} {n k : ℕ} (hn : n ≤ size.length)
    (hk : k ≤ data.length) (h : size.take n ++ data.take k = size ++ data) :
    n = size.length ∧ k = data.length := by
  have hlen := congrArg List.length h
  rw [List.length_append, List.length_append, List.length_take, List.length_take] at hlen
  omega

/-! ### Queries -/

section

variable [PyLibraries]

/-- The query is transmitted as the server takes it, and answered by what the server framed,
of which nothing is left for the next query. -/
structure QueryFramed (data : List UInt8) (reply : Message) (events : List Event)
    (r : Sock PyError Returned) (left : List UInt8) : Prop where
  transmitted : transmitted events = Connection.frame data
  answered : r = answer reply.1
  left : left = []
  server : ∀ h : data.length ≤ maxBufferSize,
    Connection.recvMessage.Accepts (Imp.transmitted events) ⟨data, h⟩

theorem answer_ne {response : List UInt8} :
    answer response ≠ .throw .structError := by
  rw [answer]
  split
  · simp
  · split <;> simp

theorem answer_run {response incoming : List UInt8} {r : Sock PyError Returned}
    (h : Run (answer response) incoming events r left) :
    events = [] ∧ r = answer response ∧ left = incoming := by
  rw [answer] at h ⊢
  split at h
  · cases h with
    | throw => exact ⟨rfl, rfl, rfl⟩
  · split at h
    · cases h with
      | throw => exact ⟨rfl, rfl, rfl⟩
    · cases h with
      | ret => exact ⟨rfl, rfl, rfl⟩

/-- With an answer, the query is framed if and only if both `send` transfer everything. -/
theorem framed_iff_of_answered {n k : ℕ} {bytes : List UInt8} (hfits : data.length < 2 ^ 32)
    (hn : n ≤ 4) (hk : k ≤ data.length) (hfour : bytes.length = 4)
    (htransmitted : transmitted events = []) (hsent : ∀ b m, Event.sent b m ∉ events) :
    QueryFramed data reply
        (.sent (sizeBytes data.length) n :: .sent data k :: .received 4 bytes :: events)
        (answer reply.1) [] ↔
      WholeTransfers data
        (.sent (sizeBytes data.length) n :: .sent data k :: .received 4 bytes :: events) := by
  have hbytes : transmitted (.sent (sizeBytes data.length) n :: .sent data k ::
      .received 4 bytes :: events) = (sizeBytes data.length).take n ++ data.take k := by
    simp [transmitted, htransmitted]
  constructor
  · intro h
    have hwhole := take_append_take_eq (by rwa [Connection.length_sizeBytes]) hk
      (hbytes.symm.trans h.transmitted)
    refine ⟨hfits, fun b m hmem => ?_, fun b hb => ?_⟩
    · simp only [List.mem_cons, Event.sent.injEq, reduceCtorEq, false_or] at hmem
      rcases hmem with ⟨rfl, rfl⟩ | ⟨rfl, rfl⟩ | hmem
      · exact hwhole.1
      · exact hwhole.2
      · exact absurd hmem (hsent b m)
    · simp only [received, List.head?_cons, Option.some.injEq] at hb
      rw [← hb, hfour]
  · intro h
    have hsize := h.sends (sizeBytes data.length) n (by simp)
    have hdata := h.sends data k (by simp)
    have hframe := hbytes
    rw [hsize, hdata, List.take_length, List.take_length] at hframe
    rw [hsize, hdata]
    exact ⟨hframe, rfl, rfl, fun hmax => hframe ▸ Connection.recvMessage_accepts ⟨data, hmax⟩⟩

/-- **When queries are framed.** A query of a connected client is transmitted and answered as
it should be exactly if the calls whose results are not looked at, and the one for the size,
transfer all that they are asked for. -/
theorem query_framed_iff {text : String} {blobArray : List (List UInt8 ⊕ List (List UInt8))}
    {r : Sock PyError Returned}
    (h : Run (query true text blobArray) (Connection.frame reply.1) events r left) :
    QueryFramed (payload text blobArray) reply events r left ↔
      WholeTransfers (payload text blobArray) events := by
  generalize hdata : payload text blobArray = data
  rw [query] at h
  rw [hdata] at h
  have hfailed : ∀ events left, ¬ QueryFramed data reply events (.throw .structError) left :=
    fun _ _ hframed => answer_ne hframed.answered.symm
  rcases Run.bind_inv h with ⟨response, between, es, es', hexchange, hanswer, rfl⟩ |
    ⟨e, hexchange, rfl⟩
  · rcases exchange_run hexchange with ⟨_, _, hr⟩ | ⟨n, k, bytes, es₀, hfits, hn, hk, rfl,
      htransmitted, hsent, ⟨_, hr⟩ | ⟨hfour, rfl, hr⟩⟩
    · cases hr
    · cases hr
    · cases hr
      obtain ⟨rfl, rfl, rfl⟩ := answer_run hanswer
      rw [List.append_nil]
      exact framed_iff_of_answered hfits hn hk hfour htransmitted hsent
  · rcases exchange_run hexchange with ⟨hfits, _, hr⟩ | ⟨n, k, bytes, es₀, _, _, _, rfl,
      _, _, ⟨hfour, hr⟩ | ⟨_, _, hr⟩⟩
    · cases hr
      exact ⟨fun hframed => absurd hframed (hfailed _ _), fun hwhole => absurd hwhole.fits hfits⟩
    · cases hr
      exact ⟨fun hframed => absurd hframed (hfailed _ _),
        fun hwhole => absurd (hwhole.size bytes rfl) hfour⟩
    · cases hr

/-! ### Runs with the answer in two pieces -/

omit [PyLibraries] in
theorem receive_one {response : List UInt8} (hne : response ≠ []) :
    Run (receive response.length []) response [.received response.length response]
      (.ret (some response)) [] := by
  have hpos := List.length_pos_iff.2 hne
  have hrun : Run (receive response.length ([] ++ response)) [] [] (.ret (some response)) [] := by
    rw [receive, dif_neg (by simp)]
    exact .ret _ _
  have hcall : Run (receive response.length []) (response ++ [])
      [.received (response.length - 0) response] (.ret (some response)) [] := by
    rw [receive, dif_pos (by simpa using hpos)]
    refine .recv ⟨response, Nat.le_refl _⟩ hne ?_
    dsimp only
    rw [dif_neg hne]
    exact hrun
  simpa using hcall

/-- Whatever the two `send` transfer, the query runs to its end. -/
theorem query_runs {text : String} {blobArray : List (List UInt8 ⊕ List (List UInt8))}
    (hfits : (payload text blobArray).length < 2 ^ 32) (n : Transfer 4)
    (k : Transfer (payload text blobArray).length) (hne : reply.1 ≠ [])
    (hanswer : Run (answer reply.1) [] [] (answer reply.1) []) :
    Run (query true text blobArray) (Connection.frame reply.1)
      [.sent (sizeBytes (payload text blobArray).length) n.count,
        .sent (payload text blobArray) k.count, .received 4 (sizeBytes reply.1.length),
        .received reply.1.length reply.1] (answer reply.1) [] := by
  have hsize : Run (recv 4 >>= fun recvLen => unpack recvLen >>= fun n => receive n [])
      (Connection.frame reply.1) [.received 4 (sizeBytes reply.1.length),
        .received reply.1.length reply.1] (.ret (some reply.1)) [] := by
    refine .recv ⟨sizeBytes reply.1.length, by simp⟩ (by simp [sizeBytes, leBytes]) ?_
    change Run (unpack (sizeBytes reply.1.length) >>= fun n => receive n []) _ _ _ _
    rw [unpack, if_pos (Connection.length_sizeBytes _), ret_bind,
      Connection.ofLeBytes_sizeBytes (Nat.lt_of_le_of_lt reply.2 (by decide))]
    exact receive_one hne
  have hexchange : Run (exchange (payload text blobArray)) (Connection.frame reply.1)
      [.sent (sizeBytes (payload text blobArray).length) n.count,
        .sent (payload text blobArray) k.count, .received 4 (sizeBytes reply.1.length),
        .received reply.1.length reply.1] (.ret (some reply.1)) [] := by
    rw [exchange, pack, if_pos hfits]
    have hn := Connection.length_sizeBytes (payload text blobArray).length
    exact .send ⟨n.count, by rw [hn]; exact n.le, fun _ => n.pos (by decide)⟩ (.send k hsize)
  exact hexchange.bind hanswer

end

/-- The libraries on the request without commands, of which the message has four bytes. -/
@[reducible] def noCommands : PyLibraries where
  serializeToString text blobs := if text = "[]" ∧ blobs = [] then [10, 2, 91, 93] else []
  parseFromString bytes := if bytes = [10, 2, 91, 93] then some ("[]", []) else none
  Value := List Unit
  loads text := if text = "[]" then some [] else none

/-- The socket takes two of the four bytes of the size: the other two are never sent. -/
theorem short_size_is_lost :
    ¬ ∀ (_ : PyLibraries) (text : String)
      (blobArray : List (List UInt8 ⊕ List (List UInt8))) (reply : Message)
      (events : List Event) (r : Sock PyError Returned) (left : List UInt8),
      Run (query true text blobArray) (Connection.frame reply.1) events r left →
        QueryFramed (payload text blobArray) reply events r left := by
  intro h
  let _ := noCommands
  have hframed := h noCommands "[]" [] ⟨[10, 2, 91, 93], by decide⟩ _ _ _
    (query_runs (by decide) ⟨2, by decide, by decide⟩ ⟨4, by decide, by decide⟩ (by simp)
      (.ret _ _))
  exact absurd hframed.transmitted (by decide)

/-- The socket takes everything. -/
theorem query_framed_whole : ∃ (_ : PyLibraries) (events : List Event),
    QueryFramed (payload "[]" []) ⟨[10, 2, 91, 93], by decide⟩ events
      (answer [10, 2, 91, 93]) [] := by
  let _ := noCommands
  have hrun := @query_runs ⟨[10, 2, 91, 93], by decide⟩ noCommands "[]" [] (by decide)
    ⟨4, by decide, by decide⟩ ⟨4, by decide, by decide⟩ (by simp) (.ret _ _)
  refine ⟨noCommands, _, (query_framed_iff hrun).2
    ⟨by decide, fun bytes count hmem => ?_, fun bytes hb => ?_⟩⟩
  · simp only [List.mem_cons, Event.sent.injEq, reduceCtorEq, List.not_mem_nil, or_false] at hmem
    rcases hmem with ⟨rfl, rfl⟩ | ⟨rfl, rfl⟩ <;> rfl
  · simp only [received, List.head?_cons, Option.some.injEq] at hb
    rw [← hb]
    rfl

end PythonClient

end Vdms

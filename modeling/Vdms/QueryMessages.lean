import Vdms.Connection
import Vdms.Imp.ExchangeProgress

/-!
# Queries over a Connection

`VDMSClient::query` sends a query over the connection and waits for the response.
`QueryHandlerBase::process_connection` is the other end: it gets a query, processes it and
sends the response, until the connection throws an exception. A query and a response are
messages of protocol buffers, which a connection transfers as bytes. What `process_query` does
depends on the query handler, so it is a relation between the states of the database before
and after it.

The timers of `process_connection` are left out.

## Main results

* `WireFormat.parse_serialize`: the wire format of `queryMessage` can be read back.
* `queries_answered_in_order`: what holds of the queries and the responses in every
  interleaving of the two ends.
-/

namespace Vdms

open Imp

/-- `protobufs::queryMessage`, with its text as bytes. -/
structure RawMessage where
  json : List UInt8
  blobs : List (List UInt8)
  deriving DecidableEq

/-- `SerializeToArray` and `ParseFromArray` of `protobufs::queryMessage`. -/
structure Protobuf where
  serialize : RawMessage → List UInt8
  parse : List UInt8 → RawMessage
  parse_serialize : ∀ m, parse (serialize m) = m

namespace Protobuf

variable (P : Protobuf)

/-- What a connection transfers for a message; `send_message` refuses one that is too long. -/
def toMessage (m : RawMessage) : Option Message :=
  if h : (P.serialize m).length ≤ maxBufferSize then some ⟨P.serialize m, h⟩ else none

/-- `QueryMessage::get_query`, of what `recv_message` has returned. -/
def ofMessage (m : Message) : RawMessage := P.parse m.1

variable {P}

/-- A query that can be sent is read from its message again. -/
theorem ofMessage_of_toMessage {q : RawMessage} {m : Message} (h : P.toMessage q = some m) :
    P.ofMessage m = q := by
  simp only [toMessage] at h
  split at h
  · cases h
    exact P.parse_serialize q
  · cases h

end Protobuf

/-- The service of a query handler. -/
def queryService {σ : Type} (P : Protobuf)
    (processQuery : σ → RawMessage → RawMessage → σ → Prop) :
    Service σ RawMessage RawMessage Message where
  request := P.toMessage
  parseRequest := P.ofMessage
  response := P.toMessage
  parseResponse := P.ofMessage
  process := processQuery
  parse_request := Protobuf.ofMessage_of_toMessage
  parse_response := Protobuf.ofMessage_of_toMessage

/-! ### The wire format -/

namespace WireFormat

/-- A base 128 number, the least significant digit first. -/
def varint (n : ℕ) : List UInt8 :=
  if n < 128 then [UInt8.ofNat n] else UInt8.ofNat (n % 128 + 128) :: varint (n / 128)
decreasing_by omega

def readVarint : List UInt8 → Option (ℕ × List UInt8)
  | [] => none
  | b :: rest =>
    if b.toNat < 128 then some (b.toNat, rest)
    else (readVarint rest).map fun r => (b.toNat - 128 + 128 * r.1, r.2)

/-- A field whose length comes before its bytes. -/
def field (tag : UInt8) (bytes : List UInt8) : List UInt8 :=
  tag :: (varint bytes.length ++ bytes)

/-- The tags of `json` and of `blobs`: the number of the field, and that it has a length. -/
def jsonTag : UInt8 := 10
def blobTag : UInt8 := 18

/-- The bytes of a message. A `json` that is empty has no field. -/
def serialize (m : RawMessage) : List UInt8 :=
  (if m.json = [] then [] else field jsonTag m.json) ++ m.blobs.flatMap (field blobTag)

/-- The message of the fields, up to one that cannot be read. -/
def parseFields : ℕ → List UInt8 → RawMessage → RawMessage
  | 0, _, m => m
  | _ + 1, [], m => m
  | n + 1, tag :: bytes, m =>
    match readVarint bytes with
    | none => m
    | some (length, rest) =>
      if rest.length < length then m
      else if tag = jsonTag then
        parseFields n (rest.drop length) { m with json := rest.take length }
      else if tag = blobTag then
        parseFields n (rest.drop length) { m with blobs := m.blobs ++ [rest.take length] }
      else m

def parse (bytes : List UInt8) : RawMessage := parseFields bytes.length bytes ⟨[], []⟩

/-- A number is read from its encoding, whatever is behind it. -/
theorem readVarint_varint (n : ℕ) (rest : List UInt8) :
    readVarint (varint n ++ rest) = some (n, rest) := by
  induction n using Nat.strongRecOn with
  | ind n ih =>
      rw [varint]
      split
      · rename_i hlt
        have hbyte : (UInt8.ofNat n).toNat = n := by
          rw [UInt8.toNat_ofNat']
          omega
        simp [readVarint, hbyte, hlt]
      · rename_i hge
        have hbyte : (UInt8.ofNat (n % 128 + 128)).toNat = n % 128 + 128 := by
          rw [UInt8.toNat_ofNat']
          omega
        rw [List.cons_append, readVarint, hbyte, if_neg (by omega), ih (n / 128) (by omega)]
        simp only [Option.map_some, Option.some.injEq, Prod.mk.injEq, and_true]
        omega

/-- Reading one field. -/
theorem parseFields_field (n : ℕ) (tag : UInt8) (bytes rest : List UInt8) (m : RawMessage) :
    parseFields (n + 1) (field tag bytes ++ rest) m =
      if tag = jsonTag then parseFields n rest { m with json := bytes }
      else if tag = blobTag then parseFields n rest { m with blobs := m.blobs ++ [bytes] }
      else m := by
  have hread : readVarint (varint bytes.length ++ bytes ++ rest) =
      some (bytes.length, bytes ++ rest) := by
    rw [List.append_assoc, readVarint_varint]
  rw [field, List.cons_append, parseFields, hread]
  simp only []
  rw [if_neg (by rw [List.length_append]; omega), List.drop_left, List.take_left]

/-- A field is not empty. -/
theorem length_field_pos (tag : UInt8) (bytes : List UInt8) : 0 < (field tag bytes).length := by
  simp [field]

/-- The fields of the blobs are read back as the blobs, in order. -/
theorem parseFields_blobs (blobs : List (List UInt8)) (n : ℕ) (m : RawMessage)
    (hn : (blobs.flatMap (field blobTag)).length ≤ n) :
    parseFields n (blobs.flatMap (field blobTag)) m = { m with blobs := m.blobs ++ blobs } := by
  induction blobs generalizing n m with
  | nil => cases n <;> simp [parseFields]
  | cons blob blobs ih =>
      rw [List.flatMap_cons, List.length_append] at hn
      have hpos := length_field_pos blobTag blob
      obtain ⟨k, rfl⟩ : ∃ k, n = k + 1 := ⟨n - 1, by omega⟩
      rw [List.flatMap_cons, parseFields_field, if_neg (by decide), if_pos rfl,
        ih k _ (by omega)]
      simp

/-- The wire format can be read back. -/
theorem parse_serialize (m : RawMessage) : parse (serialize m) = m := by
  rw [parse, serialize]
  split
  · rename_i hnil
    rw [List.nil_append, parseFields_blobs _ _ _ (Nat.le_refl _), List.nil_append, ← hnil]
  · have hpos := length_field_pos jsonTag m.json
    obtain ⟨k, hk⟩ : ∃ k, (field jsonTag m.json ++ m.blobs.flatMap (field blobTag)).length =
        k + 1 := Nat.exists_eq_add_one.mpr (by rw [List.length_append]; omega)
    rw [hk, parseFields_field, if_pos rfl, parseFields_blobs _ _ _ (by
      rw [List.length_append] at hk
      omega), List.nil_append]

/-- The wire format as it is documented. -/
def protobuf : Protobuf := ⟨serialize, parse, parse_serialize⟩

end WireFormat

/-! ### The client and the server -/

variable {σ : Type} {P : Protobuf} {processQuery : σ → RawMessage → RawMessage → σ → Prop}
  {state : σ} {s : Exchange σ RawMessage RawMessage ExceptionComm Message}

/-- **Queries are answered in order, each once.** In every interleaving of `query` and
`process_connection`, however the bytes are split and wherever a stream fails: the queries that
`process_query` has processed are the first of those sent, in order and each once, and every
one starts from what the one before has left. A response that `query` has returned is that of
its own query. At most the last query is open, and with none open all have been processed and
answered. -/
theorem queries_answered_in_order
    (h : Exchange.Reachable Connection.framing (queryService P processQuery) state s) :
    s.processed.map Prod.fst <+: s.asked ∧
      (queryService P processQuery).Trace state s.processed s.state ∧
      s.answered <+: s.processed ∧ s.asked.length ≤ s.answered.length + 1 ∧
      (s.client = .ready → s.answered = s.processed ∧ s.processed.map Prod.fst = s.asked) :=
  h.at_most_once

/-- **Every call of `query` ends.** If `process_query` returns, then in every run from here on,
without further failures of the streams, the call of `query` ends: with an exception, or with
the response of its own query, all queries having been processed and answered. -/
theorem query_ends
    (hreturns : ∀ state query, ∃ response state', processQuery state query response state')
    (h : Exchange.Reachable Connection.framing (queryService P processQuery) state s) :
    Pipe.Inevitable (Exchange.Advance Connection.framing (queryService P processQuery))
      (fun t => t.asked = s.asked ∧ (t.client = .thrown ∨
        t.client = .ready ∧ t.answered = t.processed ∧ t.processed.map Prod.fst = s.asked)) s := by
  refine (h.call_ends hreturns).mono fun t ht => ?_
  obtain ⟨hreach, hasked, hready | hthrown⟩ := ht
  · obtain ⟨hanswered, hprocessed⟩ := hreach.at_most_once.2.2.2.2 hready
    exact ⟨hasked, .inr ⟨hready, hanswered, hprocessed.trans hasked⟩⟩
  · exact ⟨hasked, .inl hthrown⟩

/-! ### One query after the other -/

section Serving

open Connection

/-- `send_message`, as far as its first call. -/
theorem sendMessage_call (m : Message) : ∃ resume,
    sendMessage m.1 = .send (sizeBytes m.1.length) resume ∧
      ∀ t : Transfer (sizeBytes m.1.length).length, t.count = 4 →
        resume (some t) = sendBody m.1 0 := by
  refine ⟨_, by rw [sendMessage, if_neg (Nat.not_lt.2 m.2)], fun t ht => ?_⟩
  simp [ht]

/-- The loop, if the socket takes all bytes. -/
theorem sendBody_call {data : List UInt8} (hdata : data ≠ []) : ∃ resume,
    sendBody data 0 = .send data resume ∧
      ∀ t : Transfer data.length, t.count = data.length → resume (some t) = .ret () := by
  have hcall : ∃ resume, sendBody data 0 = .send (data.drop 0) resume ∧
      ∀ t : Transfer (data.drop 0).length, t.count = data.length → resume (some t) = .ret () := by
    refine ⟨_, by rw [sendBody, dif_pos (List.length_pos_iff.2 hdata)], fun t ht => ?_⟩
    change sendBody data (0 + t.count) = .ret ()
    rw [sendBody, dif_neg (by omega)]
  exact hcall

/-- The sender puts a message on the wire with two calls, of which the socket takes all bytes. -/
theorem sends_whole {a : Pipe ExceptionComm Message} {m : Message} (hm : m.1 ≠ [])
    (hdown : a.down = false) :
    ∃ p p' b, (a.resumeSender (framing.put m)).sender = .calling p ∧
      Pipe.SenderStep framing (a.resumeSender (framing.put m)) b ∧ b.sender = .calling p' ∧
      Pipe.SenderStep framing b { a with wire := a.wire ++ frame m.1, sender := .idle } := by
  obtain ⟨resume, hput, hsize⟩ := sendMessage_call m
  obtain ⟨resume', hbody, hend⟩ := sendBody_call hm
  have hput : framing.put m = .send (sizeBytes m.1.length) resume := hput
  have htake : (sizeBytes m.1.length).take 4 = sizeBytes m.1.length :=
    List.take_of_length_le (by simp)
  let four : Transfer (sizeBytes m.1.length).length := ⟨4, by simp, fun _ => by decide⟩
  have hfirst := Pipe.SenderStep.send (F := framing) (s := a.resumeSender (framing.put m))
    four (by rw [hput]; rfl)
  rw [hsize _ rfl, hbody] at hfirst
  refine ⟨_, _, _, by rw [hput]; rfl, hfirst, rfl, ?_⟩
  have hrest := Pipe.SenderStep.send (F := framing)
    (s := ((a.resumeSender (framing.put m)).transmit
      ((sizeBytes m.1.length).take 4)).resumeSender (.send m.1 resume'))
    ⟨m.1.length, Nat.le_refl _, fun h => h⟩ rfl
  rw [hend _ rfl] at hrest
  simpa [Pipe.resumeSender, Pipe.transmit, hdown, Party.after, frame, htake, four] using hrest

/-- `recv_and_check`, if all of the bytes come at once. -/
theorem recvAndCheck_call {size : ℕ} (hsize : 0 < size) : ∃ resume,
    recvAndCheck size [] = .recv size resume ∧
      ∀ c : Chunk size, c.bytes.length = size → resume (some c) = .ret c.bytes := by
  have hcall : ∃ resume, recvAndCheck size [] = .recv (size - 0) resume ∧
      ∀ c : Chunk (size - 0), c.bytes.length = size → resume (some c) = .ret c.bytes := by
    have hlt : ([] : List UInt8).length < size := hsize
    refine ⟨_, by rw [recvAndCheck, dif_pos hlt]; rfl, fun c hc => ?_⟩
    have hne : c.bytes ≠ [] := List.length_pos_iff.1 (by omega)
    change (if _hc : c.bytes = [] then _ else recvAndCheck size ([] ++ c.bytes)) = _
    rw [dif_neg hne, recvAndCheck, dif_neg (by rw [List.nil_append]; omega), List.nil_append]
  exact hcall

/-- The rest of `recv_message`, after the size. -/
theorem recvMessage_call {m : Message} (hm : m.1 ≠ []) : ∃ resume resume',
    recvMessage = .recv 4 resume ∧
      (∀ c : Chunk 4, c.bytes = sizeBytes m.1.length →
        resume (some c) = .recv m.1.length resume') ∧
      ∀ c : Chunk m.1.length, c.bytes = m.1 → resume' (some c) = .ret m := by
  have hmax : m.1.length < 2 ^ 32 := Nat.lt_of_le_of_lt m.2 (by decide)
  obtain ⟨resume, hsize, hgot⟩ := recvAndCheck_call (show 0 < 4 by decide)
  obtain ⟨resume', hbody, hdone⟩ := recvAndCheck_call (List.length_pos_iff.2 hm)
  refine ⟨_, fun answer => (resume' answer).bind fun buffer =>
    if hlen : m.1.length ≠ buffer.length then .throw .ReadFail
    else .ret ⟨buffer, by have := m.2; omega⟩, by rw [recvMessage, hsize]; rfl, fun c hc => ?_, ?_⟩
  · rw [hgot c (by rw [hc]; simp), hc]
    simp only [Sock.bind, length_sizeBytes, ne_eq, not_true_eq_false, if_false,
      ofLeBytes_sizeBytes hmax, gt_iff_lt, Nat.not_lt.2 m.2, dite_false, hbody]
    rfl
  · intro c hc
    change (resume' (some c)).bind _ = _
    rw [hdone c (by rw [hc]), hc]
    simp [Sock.bind]

/-- The receiver takes a message from the wire with two calls, which deliver all bytes asked
for. -/
theorem receives_whole {a : Pipe ExceptionComm Message} {m : Message} {rest : List UInt8}
    (hm : m.1 ≠ []) (hwire : a.wire = frame m.1 ++ rest) :
    ∃ p p' b, (a.resumeReceiver framing.get).receiver = .calling p ∧
      Pipe.ReceiverStep framing (a.resumeReceiver framing.get) b ∧ b.receiver = .calling p' ∧
      Pipe.ReceiverStep framing b { a with
        wire := rest
        receiver := .idle
        consumed := a.consumed ++ frame m.1
        returned := a.returned ++ [m] } := by
  obtain ⟨resume, resume', hget, hsize, hbody⟩ := recvMessage_call hm
  have hget : framing.get = .recv 4 resume := hget
  let first : Chunk 4 := ⟨sizeBytes m.1.length, by simp⟩
  have hfirst := Pipe.ReceiverStep.recv (F := framing) (s := a.resumeReceiver framing.get)
    first (by rw [hget]; rfl) (by simp [first, sizeBytes, leBytes]) (by
      change _ <+: a.wire
      rw [hwire, frame, List.append_assoc]
      exact List.prefix_append _ _)
  rw [hsize _ rfl] at hfirst
  refine ⟨_, _, _, by rw [hget]; rfl, hfirst, rfl, ?_⟩
  let second : Chunk m.1.length := ⟨m.1, Nat.le_refl _⟩
  have hdrop : a.wire.drop (sizeBytes m.1.length).length = m.1 ++ rest := by
    rw [hwire, frame, List.append_assoc, List.drop_left]
  have hrest := Pipe.ReceiverStep.recv (F := framing)
    (s := ({ (a.resumeReceiver framing.get) with
      wire := a.wire.drop (sizeBytes m.1.length).length
      consumed := a.consumed ++ sizeBytes m.1.length } : Pipe _ _).resumeReceiver
        (.recv m.1.length resume')) second rfl hm (by
      change m.1 <+: a.wire.drop _
      rw [hdrop]
      exact List.prefix_append _ _)
  rw [hbody _ rfl] at hrest
  simp only [Pipe.resumeReceiver, hget, Sock.result, Party.after, List.append_nil, hdrop, second,
    first, frame, List.drop_left, List.append_assoc] at hrest ⊢
  exact hrest

/-- Both ends are between two calls, and nothing is under way. -/
structure AtRest (s : Exchange σ RawMessage RawMessage ExceptionComm Message) : Prop where
  client : s.client = .ready
  server : s.server = .ready
  requestSender : s.requests.sender = .idle
  requestReceiver : s.requests.receiver = .idle
  responseSender : s.responses.sender = .idle
  responseReceiver : s.responses.receiver = .idle
  requestWire : s.requests.wire = []
  responseWire : s.responses.wire = []
  requestUp : s.requests.down = false
  responseUp : s.responses.down = false

/-- The client sends a query, and then waits. -/
theorem client_sends (h : Exchange.Reachable framing (queryService P processQuery) state s)
    (hready : s.client = .ready) (hsender : s.requests.sender = .idle)
    (hreceiver : s.responses.receiver = .idle) (hup : s.requests.down = false) {q : RawMessage}
    {m : Message} (hq : P.toMessage q = some m) (hm : m.1 ≠ []) :
    Exchange.Reachable framing (queryService P processQuery) state { s with
      requests := { s.requests with
        passed := s.requests.passed ++ [m]
        wire := s.requests.wire ++ frame m.1
        sender := .idle }
      responses := s.responses.resumeReceiver framing.get
      client := .receiving q
      asked := s.asked ++ [q] } := by
  have hasked := h.tail (.ask hready hsender hq)
  obtain ⟨p, p', b, hp, hfirst, hp', hsecond⟩ := sends_whole
    (a := { s.requests with passed := s.requests.passed ++ [m] }) hm hup
  have hsent := (hasked.tail (.client (.send rfl hp hfirst))).tail
    (.client (.send rfl hp' hsecond))
  exact hsent.tail (.client (.sent rfl rfl hreceiver))

/-- The server gets a query. -/
theorem server_gets (h : Exchange.Reachable framing (queryService P processQuery) state s)
    (hready : s.server = .ready) (hreceiver : s.requests.receiver = .idle) {q : RawMessage}
    {m : Message} (hq : P.toMessage q = some m) (hm : m.1 ≠ [])
    (hwire : s.requests.wire = frame m.1) :
    Exchange.Reachable framing (queryService P processQuery) state { s with
      requests := { s.requests with
        wire := []
        receiver := .idle
        consumed := s.requests.consumed ++ frame m.1
        returned := s.requests.returned ++ [m] }
      server := .processing q } := by
  have hgets := h.tail (.server (.get hready hreceiver))
  obtain ⟨p, p', b, hp, hfirst, hp', hsecond⟩ := receives_whole (a := s.requests) hm
    (show s.requests.wire = frame m.1 ++ [] by rw [hwire, List.append_nil])
  have hgot := (hgets.tail (.server (.getMore rfl hp hfirst))).tail
    (.server (.getMore rfl hp' hsecond))
  have hknows := hgot.tail (.server (.got rfl rfl List.getLast?_concat))
  have hquery : (queryService P processQuery).parseRequest m = q :=
    Protobuf.ofMessage_of_toMessage hq
  rwa [hquery] at hknows

/-- The server processes a query, and sends the response. -/
theorem server_answers (h : Exchange.Reachable framing (queryService P processQuery) state s)
    {q r : RawMessage} (hprocessing : s.server = .processing q)
    (hsender : s.responses.sender = .idle) (hup : s.responses.down = false) {m : Message}
    {state' : σ} (hr : P.toMessage r = some m) (hm : m.1 ≠ [])
    (hprocess : processQuery s.state q r state') :
    Exchange.Reachable framing (queryService P processQuery) state { s with
      responses := { s.responses with
        passed := s.responses.passed ++ [m]
        wire := s.responses.wire ++ frame m.1
        sender := .idle }
      server := .ready
      state := state'
      processed := s.processed ++ [(q, r)] } := by
  have hprocessed := h.tail (.server (.process hprocessing hprocess hsender hr))
  obtain ⟨p, p', b, hp, hfirst, hp', hsecond⟩ := sends_whole
    (a := { s.responses with passed := s.responses.passed ++ [m] }) hm hup
  have hresponds := (hprocessed.tail (.server (.respond rfl hp hfirst))).tail
    (.server (.respond rfl hp' hsecond))
  exact hresponds.tail (.server (.responded rfl rfl))

/-- The client gets the response that it waits for. -/
theorem client_gets (h : Exchange.Reachable framing (queryService P processQuery) state s)
    {q r : RawMessage} (hreceiving : s.client = .receiving q) {a : Pipe ExceptionComm Message}
    (ha : s.responses = a.resumeReceiver framing.get) {m : Message} (hr : P.toMessage r = some m)
    (hm : m.1 ≠ []) (hwire : a.wire = frame m.1) :
    Exchange.Reachable framing (queryService P processQuery) state { s with
      responses := { a with
        wire := []
        receiver := .idle
        consumed := a.consumed ++ frame m.1
        returned := a.returned ++ [m] }
      client := .ready
      answered := s.answered ++ [(q, r)] } := by
  obtain ⟨p, p', b, hp, hfirst, hp', hsecond⟩ := receives_whole (a := a) hm
    (show a.wire = frame m.1 ++ [] by rw [hwire, List.append_nil])
  rw [← ha] at hp hfirst
  have hreceives := (h.tail (.client (.receive hreceiving hp hfirst))).tail
    (.client (.receive hreceiving hp' hsecond))
  have hanswered := hreceives.tail (.client (.received hreceiving rfl List.getLast?_concat))
  have hresponse : (queryService P processQuery).parseResponse m = r :=
    Protobuf.ofMessage_of_toMessage hr
  rwa [hresponse] at hanswered

/-- **A query that is served.** From rest a query is sent, processed and answered, and then both
ends are at rest again. -/
theorem query_served (h : Exchange.Reachable framing (queryService P processQuery) state s)
    (hs : AtRest s) {q r : RawMessage} {m m' : Message} {state' : σ} (hq : P.toMessage q = some m)
    (hr : P.toMessage r = some m') (hm : m.1 ≠ []) (hm' : m'.1 ≠ [])
    (hprocess : processQuery s.state q r state') :
    ∃ t, Exchange.Reachable framing (queryService P processQuery) state t ∧ AtRest t ∧
      t.state = state' ∧ t.asked = s.asked ++ [q] ∧ t.processed = s.processed ++ [(q, r)] ∧
      t.answered = s.answered ++ [(q, r)] := by
  have hsent := client_sends h hs.client hs.requestSender hs.responseReceiver hs.requestUp hq hm
  have hgot := server_gets hsent hs.server hs.requestReceiver hq hm
    (by simp only [hs.requestWire, List.nil_append])
  have hserved := server_answers hgot rfl hs.responseSender hs.responseUp hr hm' hprocess
  have hanswered := client_gets hserved rfl (a := { s.responses with
    passed := s.responses.passed ++ [m']
    wire := s.responses.wire ++ frame m'.1
    sender := .idle }) rfl hr hm' (by simp only [hs.responseWire, List.nil_append])
  exact ⟨_, hanswered, ⟨rfl, rfl, rfl, rfl, rfl, rfl, rfl, rfl, hs.requestUp, hs.responseUp⟩,
    rfl, rfl, rfl, rfl⟩

end Serving

/-! ### Two queries -/

/-- A query with the two bytes of its text, and no blobs. -/
def textQuery (c : UInt8) : RawMessage := ⟨[91, c], []⟩

/-- A handler that answers every query with `[]`, and counts the queries. -/
def countQueries (count : ℕ) (_ response : RawMessage) (count' : ℕ) : Prop :=
  response = ⟨[91, 93], []⟩ ∧ count' = count + 1

abbrev countService : Service ℕ RawMessage RawMessage Message :=
  queryService WireFormat.protobuf countQueries

/-- The message of such a query. -/
theorem textQuery_message (c : UInt8) : ∃ m : Message,
    WireFormat.protobuf.toMessage (textQuery c) = some m ∧ m.1 ≠ [] := by
  have hserialize : WireFormat.protobuf.serialize (textQuery c) = [10, 2, 91, c] := by
    simp [WireFormat.protobuf, WireFormat.serialize, WireFormat.field, WireFormat.varint, textQuery,
      WireFormat.jsonTag]
  have hlen : (WireFormat.protobuf.serialize (textQuery c)).length ≤ maxBufferSize := by
    rw [hserialize]
    simp [maxBufferSize]
  have hne : WireFormat.protobuf.serialize (textQuery c) ≠ [] := by
    rw [hserialize]
    exact List.cons_ne_nil _ _
  exact ⟨⟨_, hlen⟩, dif_pos hlen, hne⟩

/-- After two queries, which had different texts. -/
theorem two_served : ∃ s : Exchange ℕ RawMessage RawMessage ExceptionComm Message,
    Exchange.Reachable Connection.framing countService 0 s ∧ AtRest s ∧ s.state = 2 ∧
      s.asked = [textQuery 65, textQuery 66] ∧
      s.processed = [(textQuery 65, textQuery 93), (textQuery 66, textQuery 93)] := by
  obtain ⟨m, hm, hne⟩ := textQuery_message 65
  obtain ⟨m', hm', hne'⟩ := textQuery_message 66
  obtain ⟨response, hresponse, hfull⟩ := textQuery_message 93
  obtain ⟨s, hs, hrest, hstate, hasked, hprocessed, -⟩ :=
    query_served (.refl : Exchange.Reachable Connection.framing countService 0 (.start 0))
      ⟨rfl, rfl, rfl, rfl, rfl, rfl, rfl, rfl, rfl, rfl⟩ hm hresponse hne hfull ⟨rfl, rfl⟩
  obtain ⟨t, ht, hrest', hstate', hasked', hprocessed', -⟩ :=
    query_served hs hrest hm' hresponse hne' hfull ⟨rfl, rfl⟩
  rw [hstate] at hstate'
  rw [hasked] at hasked'
  rw [hprocessed] at hprocessed'
  exact ⟨t, ht, hrest', hstate', hasked', hprocessed'⟩

/-- Two queries that have been asked, processed and answered. -/
theorem queries_answered_in_order_two :
    ∃ s : Exchange ℕ RawMessage RawMessage ExceptionComm Message,
      s.asked = [textQuery 65, textQuery 66] ∧
        s.answered = [(textQuery 65, textQuery 93), (textQuery 66, textQuery 93)] ∧
        s.processed.map Prod.fst = s.asked ∧ countService.Trace 0 s.processed 2 := by
  obtain ⟨s, hreach, hrest, hstate, hasked, hprocessed⟩ := two_served
  obtain ⟨-, htrace, -, -, hready⟩ := queries_answered_in_order hreach
  obtain ⟨hanswered, hall⟩ := hready hrest.client
  exact ⟨s, hasked, hanswered.trans hprocessed, hall, hstate ▸ htrace⟩

/-- A third query is sent after the two. -/
theorem query_ends_third :
    ∃ s : Exchange ℕ RawMessage RawMessage ExceptionComm Message,
      s.asked = [textQuery 65, textQuery 66, textQuery 67] ∧ s.client = .sending (textQuery 67) ∧
        Pipe.Inevitable (Exchange.Advance Connection.framing countService)
          (fun t => t.asked = s.asked ∧ (t.client = .thrown ∨ t.client = .ready ∧
            t.answered = t.processed ∧ t.processed.map Prod.fst = s.asked)) s := by
  obtain ⟨s, hreach, hrest, -, hasked, -⟩ := two_served
  obtain ⟨m, hm, -⟩ := textQuery_message 67
  have hthird := hreach.tail (.ask hrest.client hrest.requestSender hm)
  exact ⟨_, by rw [hasked]; rfl, rfl, query_ends (fun count _ => ⟨_, count + 1, rfl, rfl⟩) hthird⟩

end Vdms

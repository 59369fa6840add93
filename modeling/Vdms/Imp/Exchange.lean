import Mathlib.Data.List.Infix
import Vdms.Imp.Socket

/-!
# Requests and Responses over Two Streams

A client sends a request over one stream and then waits for the response on another; a server
receives a request, processes it, and then sends the response. `Exchange` is the system of the
two, over two `Pipe`s that may fail at any time. What a request is on the wire, and what
processing it does, is the `Service`. Either party stops at the first exception.

## Main results

* `Exchange.Reachable.requests`, `Exchange.Reachable.responses`: the two streams run as
  pipes do.
* `Exchange.Reachable.at_most_once`: requests are processed in order, none twice, and the
  client gets the response to its own request.
-/

namespace Imp

/-- What a client and a server agree on. A request or a response that cannot be sent has no
message. -/
structure Service (σ Q R M : Type) where
  request : Q → Option M
  parseRequest : M → Q
  response : R → Option M
  parseResponse : M → R
  /-- Processing a request in a state gives a response and a new state. -/
  process : σ → Q → R → σ → Prop
  parse_request : ∀ {q m}, request q = some m → parseRequest m = q
  parse_response : ∀ {r m}, response r = some m → parseResponse m = r

/-- Where the client is. -/
inductive Client (Q : Type) where
  | ready
  | sending (q : Q)
  | receiving (q : Q)
  | thrown

/-- Where the server is. -/
inductive Server (Q : Type) where
  | ready
  | receiving
  | processing (q : Q)
  | sending
  /-- After an exception. -/
  | closing
  | closed

/-- A client, a server and the streams between them. What the client has `asked` and what was
`answered`, and what the server has `processed`, is kept as a record. -/
structure Exchange (σ Q R ε M : Type) where
  requests : Pipe ε M
  responses : Pipe ε M
  client : Client Q
  server : Server Q
  state : σ
  asked : List Q
  processed : List (Q × R)
  answered : List (Q × R)

variable {σ Q R ε M : Type}

/-- Processing one request after the other. -/
inductive Service.Trace (S : Service σ Q R M) : σ → List (Q × R) → σ → Prop
  | nil (state : σ) : Trace S state [] state
  | snoc {state state' state'' : σ} {l : List (Q × R)} {q : Q} {r : R} :
      Trace S state l state' → S.process state' q r state'' →
      Trace S state (l ++ [(q, r)]) state''

namespace Exchange

/-- Before the first request. -/
def start (state : σ) : Exchange σ Q R ε M :=
  ⟨.start, .start, .ready, .ready, state, [], [], []⟩

/-- What a failure of a stream leaves: some of the bytes on the wire. -/
def fail (a : Pipe ε M) (n : ℕ) : Pipe ε M := { a with wire := a.wire.take n, down := true }

/-- A step of the client in its call. -/
inductive ClientStep (F : Framing ε M) (S : Service σ Q R M) (s : Exchange σ Q R ε M) :
    Exchange σ Q R ε M → Prop
  | send {q : Q} {p : Sock ε Unit} {requests : Pipe ε M} : s.client = .sending q →
      s.requests.sender = .calling p → Pipe.SenderStep F s.requests requests →
      ClientStep F S s { s with requests := requests }
  | sent {q : Q} : s.client = .sending q → s.requests.sender = .idle →
      s.responses.receiver = .idle →
      ClientStep F S s { s with
        responses := s.responses.resumeReceiver F.get
        client := .receiving q }
  | receive {q : Q} {p : Sock ε M} {responses : Pipe ε M} : s.client = .receiving q →
      s.responses.receiver = .calling p → Pipe.ReceiverStep F s.responses responses →
      ClientStep F S s { s with responses := responses }
  | received {q : Q} {m : M} : s.client = .receiving q → s.responses.receiver = .idle →
      s.responses.returned.getLast? = some m →
      ClientStep F S s { s with
        client := .ready
        answered := s.answered ++ [(q, S.parseResponse m)] }
  | sendThrows {q : Q} {e : ε} : s.client = .sending q → s.requests.sender = .thrown e →
      ClientStep F S s { s with client := .thrown }
  | receiveThrows {q : Q} {e : ε} : s.client = .receiving q →
      s.responses.receiver = .thrown e → ClientStep F S s { s with client := .thrown }

/-- A step of the server. After an exception it closes its end of both streams. -/
inductive ServerStep (F : Framing ε M) (S : Service σ Q R M) (s : Exchange σ Q R ε M) :
    Exchange σ Q R ε M → Prop
  | get : s.server = .ready → s.requests.receiver = .idle →
      ServerStep F S s { s with
        requests := s.requests.resumeReceiver F.get
        server := .receiving }
  | getMore {p : Sock ε M} {requests : Pipe ε M} : s.server = .receiving →
      s.requests.receiver = .calling p → Pipe.ReceiverStep F s.requests requests →
      ServerStep F S s { s with requests := requests }
  | got {m : M} : s.server = .receiving → s.requests.receiver = .idle →
      s.requests.returned.getLast? = some m →
      ServerStep F S s { s with server := .processing (S.parseRequest m) }
  | process {q : Q} {r : R} {state : σ} {m : M} : s.server = .processing q →
      S.process s.state q r state → s.responses.sender = .idle → S.response r = some m →
      ServerStep F S s { s with
        responses :=
          { s.responses with passed := s.responses.passed ++ [m] }.resumeSender (F.put m)
        server := .sending
        state := state
        processed := s.processed ++ [(q, r)] }
  | processRefuse {q : Q} {r : R} {state : σ} : s.server = .processing q →
      S.process s.state q r state → S.response r = none →
      ServerStep F S s { s with
        server := .closing
        state := state
        processed := s.processed ++ [(q, r)] }
  | respond {p : Sock ε Unit} {responses : Pipe ε M} : s.server = .sending →
      s.responses.sender = .calling p → Pipe.SenderStep F s.responses responses →
      ServerStep F S s { s with responses := responses }
  | responded : s.server = .sending → s.responses.sender = .idle →
      ServerStep F S s { s with server := .ready }
  | getThrows {e : ε} : s.server = .receiving → s.requests.receiver = .thrown e →
      ServerStep F S s { s with server := .closing }
  | respondThrows {e : ε} : s.server = .sending → s.responses.sender = .thrown e →
      ServerStep F S s { s with server := .closing }
  | close (n k : ℕ) : s.server = .closing →
      ServerStep F S s { s with
        requests := fail s.requests n
        responses := fail s.responses k
        server := .closed }

/-- The client calls for a request, either party goes on, or a stream fails. -/
inductive Step (F : Framing ε M) (S : Service σ Q R M) (s : Exchange σ Q R ε M) :
    Exchange σ Q R ε M → Prop
  | ask {q : Q} {m : M} : s.client = .ready → s.requests.sender = .idle →
      S.request q = some m →
      Step F S s { s with
        requests := { s.requests with passed := s.requests.passed ++ [m] }.resumeSender (F.put m)
        client := .sending q
        asked := s.asked ++ [q] }
  | refuse {q : Q} : s.client = .ready → S.request q = none →
      Step F S s { s with client := .thrown, asked := s.asked ++ [q] }
  | client {t : Exchange σ Q R ε M} : ClientStep F S s t → Step F S s t
  | server {t : Exchange σ Q R ε M} : ServerStep F S s t → Step F S s t
  | requestsFail (n : ℕ) : Step F S s { s with requests := fail s.requests n }
  | responsesFail (n : ℕ) : Step F S s { s with responses := fail s.responses n }

/-- The states of all runs from a state of the service. -/
def Reachable (F : Framing ε M) (S : Service σ Q R M) (state : σ) :
    Exchange σ Q R ε M → Prop :=
  Relation.ReflTransGen (Step F S) (start state)

variable {F : Framing ε M} {S : Service σ Q R M} {s t : Exchange σ Q R ε M} {state : σ}

/-- A step of the system is at most one step of each stream. -/
theorem Step.pipes (h : Step F S s t) :
    (t.requests = s.requests ∨ Pipe.Step F s.requests t.requests) ∧
      (t.responses = s.responses ∨ Pipe.Step F s.responses t.responses) := by
  cases h with
  | ask _ hidle _ => exact ⟨.inr (.sender (.call _ hidle)), .inl rfl⟩
  | refuse _ _ => exact ⟨.inl rfl, .inl rfl⟩
  | client h =>
      cases h with
      | send _ _ hstep => exact ⟨.inr (.sender hstep), .inl rfl⟩
      | sent _ _ hidle => exact ⟨.inl rfl, .inr (.receiver (.call hidle))⟩
      | receive _ _ hstep => exact ⟨.inl rfl, .inr (.receiver hstep)⟩
      | _ => exact ⟨.inl rfl, .inl rfl⟩
  | server h =>
      cases h with
      | get _ hidle => exact ⟨.inr (.receiver (.call hidle)), .inl rfl⟩
      | getMore _ _ hstep => exact ⟨.inr (.receiver hstep), .inl rfl⟩
      | process _ _ hidle _ => exact ⟨.inl rfl, .inr (.sender (.call _ hidle))⟩
      | respond _ _ hstep => exact ⟨.inl rfl, .inr (.sender hstep)⟩
      | close n k _ => exact ⟨.inr (.fails _ n), .inr (.fails _ k)⟩
      | _ => exact ⟨.inl rfl, .inl rfl⟩
  | requestsFail n => exact ⟨.inr (.fails _ n), .inl rfl⟩
  | responsesFail n => exact ⟨.inl rfl, .inr (.fails _ n)⟩

theorem Reachable.pipes (h : Reachable F S state s) :
    Pipe.Reachable F s.requests ∧ Pipe.Reachable F s.responses := by
  induction h with
  | refl => exact ⟨.refl, .refl⟩
  | tail _ hstep ih =>
      obtain ⟨hrequests, hresponses⟩ := hstep.pipes
      constructor
      · rcases hrequests with heq | hstep
        · rw [heq]
          exact ih.1
        · exact ih.1.tail hstep
      · rcases hresponses with heq | hstep
        · rw [heq]
          exact ih.2
        · exact ih.2.tail hstep

/-! ### What the parties know -/

/-- What a receiver has got beyond what it knew: a message, once its call has returned. -/
def Got {α : Type} (parse : M → α) (returned : List M) (receiver : Party ε M)
    (known : List α) : Prop :=
  (receiver = .idle ∧ ∃ m, returned.getLast? = some m ∧ returned.map parse = known ++ [parse m]) ∨
    (receiver ≠ .idle ∧ returned.map parse = known)

/-- What the client has passed on and got back, where it is. -/
def ClientAt (S : Service σ Q R M) (passed : List M) (sender : Party ε Unit)
    (returned : List M) (receiver : Party ε M) (asked : List Q) (answered : List (Q × R)) :
    Client Q → Prop
  | .ready => sender = .idle ∧ receiver = .idle ∧ passed.map S.parseRequest = asked ∧
      asked = answered.map Prod.fst ∧ returned.map S.parseResponse = answered.map Prod.snd
  | .sending q => receiver = .idle ∧ passed.map S.parseRequest = asked ∧
      asked = answered.map Prod.fst ++ [q] ∧
      returned.map S.parseResponse = answered.map Prod.snd
  | .receiving q => sender = .idle ∧ passed.map S.parseRequest = asked ∧
      asked = answered.map Prod.fst ++ [q] ∧
      Got S.parseResponse returned receiver (answered.map Prod.snd)
  | .thrown => passed.map S.parseRequest <+: asked ∧
      (∃ q, asked = answered.map Prod.fst ++ [q]) ∧
      returned.map S.parseResponse = answered.map Prod.snd

/-- What the server has got and passed on, where it is. -/
def ServerAt (S : Service σ Q R M) (returned : List M) (receiver : Party ε M)
    (passed : List M) (sender : Party ε Unit) (processed : List (Q × R)) : Server Q → Prop
  | .ready => receiver = .idle ∧ sender = .idle ∧
      returned.map S.parseRequest = processed.map Prod.fst ∧
      passed.map S.parseResponse = processed.map Prod.snd
  | .receiving => sender = .idle ∧
      Got S.parseRequest returned receiver (processed.map Prod.fst) ∧
      passed.map S.parseResponse = processed.map Prod.snd
  | .processing q => receiver = .idle ∧ sender = .idle ∧
      returned.map S.parseRequest = processed.map Prod.fst ++ [q] ∧
      passed.map S.parseResponse = processed.map Prod.snd
  | .sending => receiver = .idle ∧
      returned.map S.parseRequest = processed.map Prod.fst ∧
      passed.map S.parseResponse = processed.map Prod.snd
  | .closing => returned.map S.parseRequest = processed.map Prod.fst ∧
      passed.map S.parseResponse <+: processed.map Prod.snd
  | .closed => returned.map S.parseRequest = processed.map Prod.fst ∧
      passed.map S.parseResponse <+: processed.map Prod.snd

/-- The invariant of all runs. -/
structure Inv (S : Service σ Q R M) (state : σ) (s : Exchange σ Q R ε M) : Prop where
  client : ClientAt S s.requests.passed s.requests.sender s.responses.returned
    s.responses.receiver s.asked s.answered s.client
  server : ServerAt S s.requests.returned s.requests.receiver s.responses.passed
    s.responses.sender s.processed s.server
  trace : S.Trace state s.processed s.state
  closed : s.server = .closed → s.responses.down = true

theorem Inv.start (S : Service σ Q R M) (state : σ) :
    (Exchange.start state : Exchange σ Q R ε M).Inv S state where
  client := ⟨rfl, rfl, rfl, rfl, rfl⟩
  server := ⟨rfl, rfl, rfl, rfl⟩
  trace := .nil state
  closed hclosed := by cases hclosed

/-- What the answer to a call of the sender leaves as it is. -/
theorem senderStep_calling {a b : Pipe ε M} (h : Pipe.SenderStep F a b) {p : Sock ε Unit}
    (hp : a.sender = .calling p) :
    b.passed = a.passed ∧ b.returned = a.returned ∧ b.receiver = a.receiver ∧
      b.down = a.down := by
  cases h with
  | call m hidle => rw [hp] at hidle; cases hidle
  | send _ _ => exact ⟨rfl, rfl, rfl, rfl⟩
  | fail _ => exact ⟨rfl, rfl, rfl, rfl⟩

/-- A receiver goes on in its call, or has got a message. -/
theorem got_resumeReceiver {α : Type} {parse : M → α} {a : Pipe ε M} {known : List α}
    (h : a.returned.map parse = known) (p : Sock ε M) :
    Got parse (a.resumeReceiver p).returned (a.resumeReceiver p).receiver known := by
  cases p with
  | ret m =>
      refine .inl ⟨rfl, m, ?_, ?_⟩
      · simp [Pipe.resumeReceiver, Sock.result]
      · simp [Pipe.resumeReceiver, Sock.result, h]
  | throw e =>
      exact .inr ⟨by simp [Pipe.resumeReceiver, Party.after],
        by simp [Pipe.resumeReceiver, Sock.result, h]⟩
  | send bytes resume =>
      exact .inr ⟨by simp [Pipe.resumeReceiver, Party.after],
        by simp [Pipe.resumeReceiver, Sock.result, h]⟩
  | recv size resume =>
      exact .inr ⟨by simp [Pipe.resumeReceiver, Party.after],
        by simp [Pipe.resumeReceiver, Sock.result, h]⟩

theorem Got.of_calling {α : Type} {parse : M → α} {a : Pipe ε M} {known : List α}
    (h : Got parse a.returned a.receiver known) {p : Sock ε M} (hp : a.receiver = .calling p) :
    a.returned.map parse = known := by
  rcases h with ⟨hidle, -⟩ | ⟨-, h⟩
  · rw [hp] at hidle
    cases hidle
  · exact h

/-- What the answer to a call of the receiver leaves as it is, and what it delivers. -/
theorem receiverStep_calling {α : Type} {parse : M → α} {a b : Pipe ε M} {known : List α}
    (h : Pipe.ReceiverStep F a b) {p : Sock ε M} (hp : a.receiver = .calling p)
    (hgot : Got parse a.returned a.receiver known) :
    b.passed = a.passed ∧ b.sender = a.sender ∧ b.down = a.down ∧
      Got parse b.returned b.receiver known := by
  have hknown := hgot.of_calling hp
  cases h with
  | call hidle => rw [hp] at hidle; cases hidle
  | recv _ _ _ _ => exact ⟨rfl, rfl, rfl, got_resumeReceiver hknown _⟩
  | eof _ _ _ => exact ⟨rfl, rfl, rfl, got_resumeReceiver hknown _⟩
  | fail _ => exact ⟨rfl, rfl, rfl, got_resumeReceiver hknown _⟩

theorem Inv.clientStep (h : s.Inv S state) (hstep : ClientStep F S s t) : t.Inv S state := by
  obtain ⟨hclient, hserver, htrace, hclosed⟩ := h
  cases hstep with
  | @send q p requests hsending hp hstep =>
      obtain ⟨hpassed, hreturned, hreceiver, -⟩ := senderStep_calling hstep hp
      rw [hsending] at hclient
      refine ⟨?_, ?_, htrace, hclosed⟩
      · rw [hpassed, hsending]
        exact hclient
      · rw [hreturned, hreceiver]
        exact hserver
  | @sent q hsending hidle _ =>
      rw [hsending] at hclient
      obtain ⟨-, hpassed, hasked, hreturned⟩ := hclient
      exact ⟨⟨hidle, hpassed, hasked, got_resumeReceiver hreturned _⟩, hserver, htrace, hclosed⟩
  | @receive q p responses hreceiving hp hstep =>
      rw [hreceiving] at hclient
      obtain ⟨hidle, hpassed, hasked, hgot⟩ := hclient
      obtain ⟨hpassed', hsender', hdown, hgot'⟩ := receiverStep_calling hstep hp hgot
      refine ⟨?_, ?_, htrace, fun hs => hdown.trans (hclosed hs)⟩
      · rw [hreceiving]
        exact ⟨hidle, hpassed, hasked, hgot'⟩
      · rw [hpassed', hsender']
        exact hserver
  | @received q m hreceiving hidle hlast =>
      rw [hreceiving] at hclient
      obtain ⟨hsender, hpassed, hasked, hgot⟩ := hclient
      refine ⟨⟨hsender, hidle, hpassed, ?_, ?_⟩, hserver, htrace, hclosed⟩
      · rw [hasked]
        simp
      · rcases hgot with ⟨-, m', hlast', hmap⟩ | ⟨hne, -⟩
        · rw [hlast] at hlast'
          cases hlast'
          rw [hmap]
          simp
        · exact absurd hidle hne
  | @sendThrows q e hsending _ =>
      rw [hsending] at hclient
      obtain ⟨-, hpassed, hasked, hreturned⟩ := hclient
      exact ⟨⟨hpassed ▸ List.prefix_refl _, ⟨q, hasked⟩, hreturned⟩, hserver, htrace, hclosed⟩
  | @receiveThrows q e hreceiving hthrown =>
      rw [hreceiving] at hclient
      obtain ⟨-, hpassed, hasked, hgot⟩ := hclient
      refine ⟨⟨hpassed ▸ List.prefix_refl _, ⟨q, hasked⟩, ?_⟩, hserver, htrace, hclosed⟩
      rcases hgot with ⟨hidle, -⟩ | ⟨-, hmap⟩
      · rw [hthrown] at hidle
        cases hidle
      · exact hmap

theorem Inv.serverStep (h : s.Inv S state) (hstep : ServerStep F S s t) : t.Inv S state := by
  obtain ⟨hclient, hserver, htrace, hclosed⟩ := h
  cases hstep with
  | get hready _ =>
      rw [hready] at hserver
      obtain ⟨-, hsender, hreturned, hpassed⟩ := hserver
      exact ⟨hclient, ⟨hsender, got_resumeReceiver hreturned _, hpassed⟩, htrace, by simp⟩
  | @getMore p requests hreceiving hp hstep =>
      rw [hreceiving] at hserver
      obtain ⟨hsender, hgot, hpassed⟩ := hserver
      obtain ⟨hpassed', hsender', -, hgot'⟩ := receiverStep_calling hstep hp hgot
      refine ⟨?_, ?_, htrace, by simp [hreceiving]⟩
      · rw [hpassed', hsender']
        exact hclient
      · rw [hreceiving]
        exact ⟨hsender, hgot', hpassed⟩
  | @got m hreceiving hidle hlast =>
      rw [hreceiving] at hserver
      obtain ⟨hsender, hgot, hpassed⟩ := hserver
      refine ⟨hclient, ⟨hidle, hsender, ?_, hpassed⟩, htrace, by simp⟩
      rcases hgot with ⟨-, m', hlast', hmap⟩ | ⟨hne, -⟩
      · rw [hlast] at hlast'
        cases hlast'
        exact hmap
      · exact absurd hidle hne
  | @process q r state' m hprocessing hprocess hidle hm =>
      rw [hprocessing] at hserver
      obtain ⟨hreceiver, -, hreturned, hpassed⟩ := hserver
      refine ⟨hclient, ⟨hreceiver, ?_, ?_⟩, htrace.snoc hprocess, by simp⟩
      · rw [hreturned]
        simp
      · simp [Pipe.resumeSender, hpassed, S.parse_response hm]
  | @processRefuse q r state' hprocessing hprocess _ =>
      rw [hprocessing] at hserver
      obtain ⟨hreceiver, -, hreturned, hpassed⟩ := hserver
      refine ⟨hclient, ⟨?_, ?_⟩, htrace.snoc hprocess, by simp⟩
      · rw [hreturned]
        simp
      · rw [hpassed, List.map_append]
        exact List.prefix_append _ _
  | @respond p responses hsending hp hstep =>
      obtain ⟨hpassed, hreturned, hreceiver, hdown⟩ := senderStep_calling hstep hp
      refine ⟨?_, ?_, htrace, fun hs => hdown.trans (hclosed hs)⟩
      · rw [hreturned, hreceiver]
        exact hclient
      · rw [hsending] at hserver ⊢
        rw [hpassed]
        exact hserver
  | responded hsending hidle =>
      rw [hsending] at hserver
      obtain ⟨hreceiver, hreturned, hpassed⟩ := hserver
      exact ⟨hclient, ⟨hreceiver, hidle, hreturned, hpassed⟩, htrace, by simp⟩
  | @getThrows e hreceiving hthrown =>
      rw [hreceiving] at hserver
      obtain ⟨-, hgot, hpassed⟩ := hserver
      refine ⟨hclient, ⟨?_, hpassed ▸ List.prefix_refl _⟩, htrace, by simp⟩
      rcases hgot with ⟨hidle, -⟩ | ⟨-, hmap⟩
      · rw [hthrown] at hidle
        cases hidle
      · exact hmap
  | @respondThrows e hsending _ =>
      rw [hsending] at hserver
      obtain ⟨-, hreturned, hpassed⟩ := hserver
      exact ⟨hclient, ⟨hreturned, hpassed ▸ List.prefix_refl _⟩, htrace, by simp⟩
  | close n k hclosing =>
      rw [hclosing] at hserver
      exact ⟨hclient, hserver, htrace, fun _ => rfl⟩

/-- **What one step preserves.** -/
theorem Inv.step (h : s.Inv S state) (hstep : Step F S s t) : t.Inv S state := by
  cases hstep with
  | @ask q m hready hidle hm =>
      obtain ⟨hclient, hserver, htrace, hclosed⟩ := h
      rw [hready] at hclient
      obtain ⟨-, hreceiver, hpassed, hasked, hreturned⟩ := hclient
      refine ⟨⟨hreceiver, ?_, ?_, hreturned⟩, hserver, htrace, hclosed⟩
      · simp [Pipe.resumeSender, hpassed, S.parse_request hm]
      · rw [hasked]
  | @refuse q hready _ =>
      obtain ⟨hclient, hserver, htrace, hclosed⟩ := h
      rw [hready] at hclient
      obtain ⟨-, -, hpassed, hasked, hreturned⟩ := hclient
      refine ⟨⟨?_, ⟨q, ?_⟩, hreturned⟩, hserver, htrace, hclosed⟩
      · rw [hpassed]
        exact List.prefix_append _ _
      · rw [hasked]
  | client hstep => exact h.clientStep hstep
  | server hstep => exact h.serverStep hstep
  | requestsFail n => exact ⟨h.client, h.server, h.trace, h.closed⟩
  | responsesFail n => exact ⟨h.client, h.server, h.trace, fun _ => rfl⟩

theorem Reachable.inv (h : Reachable F S state s) : s.Inv S state := by
  induction h with
  | refl => exact .start S state
  | tail _ hstep ih => exact ih.step hstep

/-! ### What holds of the records -/

/-- The client has one request at most that is not answered. -/
theorem Inv.client_records (h : s.Inv S state) :
    s.requests.passed.map S.parseRequest <+: s.asked ∧
      (s.asked = s.answered.map Prod.fst ∨ ∃ q, s.asked = s.answered.map Prod.fst ++ [q]) ∧
      s.answered.map Prod.snd <+: s.responses.returned.map S.parseResponse ∧
      (s.client = .ready → s.asked = s.answered.map Prod.fst) := by
  have hclient := h.client
  cases hc : s.client with
  | ready =>
      rw [hc] at hclient
      obtain ⟨-, -, hpassed, hasked, hreturned⟩ := hclient
      exact ⟨hpassed ▸ List.prefix_refl _, .inl hasked, hreturned ▸ List.prefix_refl _,
        fun _ => hasked⟩
  | sending q =>
      rw [hc] at hclient
      obtain ⟨-, hpassed, hasked, hreturned⟩ := hclient
      exact ⟨hpassed ▸ List.prefix_refl _, .inr ⟨q, hasked⟩, hreturned ▸ List.prefix_refl _,
        by simp⟩
  | receiving q =>
      rw [hc] at hclient
      obtain ⟨-, hpassed, hasked, hgot⟩ := hclient
      refine ⟨hpassed ▸ List.prefix_refl _, .inr ⟨q, hasked⟩, ?_, by simp⟩
      rcases hgot with ⟨-, m, -, hmap⟩ | ⟨-, hmap⟩
      · exact hmap ▸ List.prefix_append _ _
      · exact hmap ▸ List.prefix_refl _
  | thrown =>
      rw [hc] at hclient
      obtain ⟨hpassed, hasked, hreturned⟩ := hclient
      exact ⟨hpassed, .inr hasked, hreturned ▸ List.prefix_refl _, by simp⟩

/-- The server processes what it receives, and sends what comes of it. -/
theorem Inv.server_records (h : s.Inv S state) :
    s.processed.map Prod.fst <+: s.requests.returned.map S.parseRequest ∧
      s.responses.passed.map S.parseResponse <+: s.processed.map Prod.snd := by
  have hserver := h.server
  cases hs : s.server with
  | ready =>
      rw [hs] at hserver
      obtain ⟨-, -, hreturned, hpassed⟩ := hserver
      exact ⟨hreturned ▸ List.prefix_refl _, hpassed ▸ List.prefix_refl _⟩
  | receiving =>
      rw [hs] at hserver
      obtain ⟨-, hgot, hpassed⟩ := hserver
      refine ⟨?_, hpassed ▸ List.prefix_refl _⟩
      rcases hgot with ⟨-, m, -, hmap⟩ | ⟨-, hmap⟩
      · exact hmap ▸ List.prefix_append _ _
      · exact hmap ▸ List.prefix_refl _
  | processing q =>
      rw [hs] at hserver
      obtain ⟨-, -, hreturned, hpassed⟩ := hserver
      exact ⟨hreturned ▸ List.prefix_append _ _, hpassed ▸ List.prefix_refl _⟩
  | sending =>
      rw [hs] at hserver
      obtain ⟨-, hreturned, hpassed⟩ := hserver
      exact ⟨hreturned ▸ List.prefix_refl _, hpassed ▸ List.prefix_refl _⟩
  | closing =>
      rw [hs] at hserver
      exact ⟨hserver.1 ▸ List.prefix_refl _, hserver.2⟩
  | closed =>
      rw [hs] at hserver
      exact ⟨hserver.1 ▸ List.prefix_refl _, hserver.2⟩

/-- Pairs that agree in both components. -/
theorem prefix_of_map {α β : Type} {l l' : List (α × β)} (hfst : l.map Prod.fst <+: l'.map Prod.fst)
    (hsnd : l.map Prod.snd <+: l'.map Prod.snd) : l <+: l' := by
  induction l generalizing l' with
  | nil => exact List.nil_prefix
  | cons x l ih =>
      cases l' with
      | nil => simp at hfst
      | cons y l' =>
          simp only [List.map_cons, List.cons_prefix_cons] at hfst hsnd ⊢
          exact ⟨Prod.ext hfst.1 hsnd.1, ih hfst.2 hsnd.2⟩

/-- **Each request is processed once at most.** In every interleaving, wherever the streams
fail: the requests processed are the first of those asked, in order, each once, from the
state that the one before left; what the client gets is the response to its own request; and
at most the last request is open. Where the client is ready again, every request has been
processed and answered. -/
theorem Reachable.at_most_once [Inhabited M] (h : Reachable F S state s) :
    s.processed.map Prod.fst <+: s.asked ∧ S.Trace state s.processed s.state ∧
      s.answered <+: s.processed ∧ s.asked.length ≤ s.answered.length + 1 ∧
      (s.client = .ready → s.answered = s.processed ∧ s.processed.map Prod.fst = s.asked) := by
  obtain ⟨hrequests, hresponses⟩ := h.pipes
  obtain ⟨hpassed, hasked, hreturned, hready⟩ := h.inv.client_records
  obtain ⟨hprocessed, hsent⟩ := h.inv.server_records
  have hfst : s.processed.map Prod.fst <+: s.asked :=
    hprocessed.trans ((hrequests.returned_prefix.map _).trans hpassed)
  have hsnd : s.answered.map Prod.snd <+: s.processed.map Prod.snd :=
    hreturned.trans ((hresponses.returned_prefix.map _).trans hsent)
  have hlength : s.answered.length ≤ s.processed.length := by
    have hle := hsnd.length_le
    simpa using hle
  have hanswered : s.answered.map Prod.fst <+: s.asked := by
    rcases hasked with hasked | ⟨q, hasked⟩
    · exact hasked ▸ List.prefix_refl _
    · exact hasked ▸ List.prefix_append _ _
  have hpairs : s.answered <+: s.processed :=
    prefix_of_map (List.prefix_of_prefix_length_le hanswered hfst (by simpa using hlength)) hsnd
  refine ⟨hfst, h.inv.trace, hpairs, ?_, fun hc => ?_⟩
  · rcases hasked with hasked | ⟨q, hasked⟩
    · simp [hasked]
    · simp [hasked]
  · have hall := hready hc
    have hle : s.processed.length ≤ s.answered.length := by
      have hle := hfst.length_le
      rw [hall] at hle
      simpa using hle
    have heq := hpairs.eq_of_length (Nat.le_antisymm hlength hle)
    exact ⟨heq, by rw [hall, heq]⟩

end Exchange

end Imp

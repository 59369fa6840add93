import Mathlib.Order.GameAdd
import Vdms.Imp.Exchange
import Vdms.Imp.Threads

/-!
# Requests are Answered

Whatever the order of steps, a call of the client ends: with the response to its request, or
with an exception. An answer to a call of `send` or `recv` goes down in the tree that the
program is, and between two such calls the parties go through finitely many places. The only
way to get stuck would be that both parties wait for a message; but then none is under way, so
all requests have been processed and all responses received.

## Main results

* `Exchange.Reachable.call_ends`: every run without further failures of the streams ends the
  call of the client.
-/

namespace Imp

variable {σ Q R ε α M : Type}

/-! ### Programs as trees -/

namespace Sock

/-- A program, and what it is after an answer to its call. -/
inductive Child : Sock ε α → Sock ε α → Prop
  | send {bytes : List UInt8} {resume : Option (Transfer bytes.length) → Sock ε α}
      (answer : Option (Transfer bytes.length)) : Child (resume answer) (.send bytes resume)
  | recv {size : ℕ} {resume : Option (Chunk size) → Sock ε α} (answer : Option (Chunk size)) :
      Child (resume answer) (.recv size resume)

theorem wellFounded_child : WellFounded (@Child ε α) := by
  refine ⟨fun p => ?_⟩
  induction p with
  | ret a => exact ⟨_, fun q h => by cases h⟩
  | throw e => exact ⟨_, fun q h => by cases h⟩
  | send bytes resume ih => exact ⟨_, fun q h => by cases h; exact ih _⟩
  | recv size resume ih => exact ⟨_, fun q h => by cases h; exact ih _⟩

end Sock

namespace Party

/-- A party in a call, and further on in it. -/
inductive Later : Party ε α → Party ε α → Prop
  | calling {p q : Sock ε α} : Sock.Child q p → Later (.calling q) (.calling p)

theorem wellFounded_later : WellFounded (@Later ε α) := by
  refine ⟨fun a => ?_⟩
  cases a with
  | idle => exact ⟨_, fun b h => by cases h⟩
  | thrown e => exact ⟨_, fun b h => by cases h⟩
  | calling p =>
      induction p using Sock.wellFounded_child.induction with
      | _ p ih => exact ⟨_, fun b h => by cases h with | calling hchild => exact ih _ hchild⟩

/-- Whether a call is going on. -/
def busy : Party ε α → ℕ
  | .calling _ => 1
  | _ => 0

@[simp] theorem busy_idle : (idle : Party ε α).busy = 0 := rfl

@[simp] theorem busy_thrown (e : ε) : (thrown e : Party ε α).busy = 0 := rfl

@[simp] theorem busy_calling (p : Sock ε α) : (calling p : Party ε α).busy = 1 := rfl

theorem busy_le (a : Party ε α) : a.busy ≤ 1 := by
  cases a <;> simp

theorem Later.busy {a b : Party ε α} (h : Later a b) : a.busy = b.busy := by
  cases h with
  | calling _ => rfl

/-- A call that goes on after an answer, or has ended. -/
theorem after_later {p q : Sock ε α} (h : Sock.Child q p) :
    Later (.after q) (.calling p) ∨ (Party.after q).busy = 0 := by
  cases q with
  | ret a => exact .inr rfl
  | throw e => exact .inr rfl
  | send bytes resume => exact .inl (.calling h)
  | recv size resume => exact .inl (.calling h)

end Party

namespace Pipe

variable {F : Framing ε M} {a b : Pipe ε M}

/-- An answer to the sender. -/
theorem SenderStep.later {p : Sock ε Unit} (h : SenderStep F a b) (hp : a.sender = .calling p) :
    b.passed = a.passed ∧ b.returned = a.returned ∧ b.receiver = a.receiver ∧
      (Party.Later b.sender a.sender ∨ b.sender.busy = 0) := by
  cases h with
  | call m hidle => rw [hp] at hidle; cases hidle
  | send t hcalling =>
      refine ⟨rfl, rfl, rfl, ?_⟩
      rw [hcalling]
      exact Party.after_later (.send _)
  | fail hcalling =>
      refine ⟨rfl, rfl, rfl, ?_⟩
      rw [hcalling]
      exact Party.after_later (.send _)

/-- The call of the receiver goes on, or it has returned a message, or thrown. -/
theorem resumeReceiver_later {p q : Sock ε M} (hp : a.receiver = .calling p)
    (h : Sock.Child q p) :
    (Party.Later (a.resumeReceiver q).receiver a.receiver ∧
        (a.resumeReceiver q).returned = a.returned) ∨
      ((a.resumeReceiver q).receiver = .idle ∧
        (a.resumeReceiver q).returned.length = a.returned.length + 1) ∨
      (∃ e, (a.resumeReceiver q).receiver = .thrown e) ∧
        (a.resumeReceiver q).returned = a.returned := by
  rw [hp]
  cases q with
  | ret m => exact .inr (.inl ⟨rfl, by simp [resumeReceiver, Sock.result]⟩)
  | throw e => exact .inr (.inr ⟨⟨e, rfl⟩, by simp [resumeReceiver, Sock.result]⟩)
  | send bytes resume => exact .inl ⟨.calling h, by simp [resumeReceiver, Sock.result]⟩
  | recv size resume => exact .inl ⟨.calling h, by simp [resumeReceiver, Sock.result]⟩

/-- An answer to the receiver. -/
theorem ReceiverStep.later {p : Sock ε M} (h : ReceiverStep F a b)
    (hp : a.receiver = .calling p) :
    b.passed = a.passed ∧ b.sender = a.sender ∧
      ((Party.Later b.receiver a.receiver ∧ b.returned = a.returned) ∨
        (b.receiver = .idle ∧ b.returned.length = a.returned.length + 1) ∨
        (∃ e, b.receiver = .thrown e) ∧ b.returned = a.returned) := by
  cases h with
  | call hidle => rw [hp] at hidle; cases hidle
  | @recv size resume c hcalling hne hwire =>
      refine ⟨rfl, rfl, ?_⟩
      exact resumeReceiver_later (a := { a with
        wire := a.wire.drop c.bytes.length
        consumed := a.consumed ++ c.bytes }) hcalling (.recv _)
  | eof hcalling _ _ => exact ⟨rfl, rfl, resumeReceiver_later hcalling (.recv _)⟩
  | fail hcalling => exact ⟨rfl, rfl, resumeReceiver_later hcalling (.recv _)⟩

theorem send_of_after {q p : Sock ε Unit} {rest : List UInt8} (h : q.Sends rest)
    (hp : Party.after q = .calling p) : ∃ bytes resume, p = .send bytes resume := by
  cases h with
  | ret a => cases hp
  | throw e => cases hp
  | send _ _ _ => cases hp; exact ⟨_, _, rfl⟩

/-- A sender in a call waits for the answer of `send`. -/
theorem Reachable.sender_calling [Inhabited M] (h : Reachable F a) {p : Sock ε Unit}
    (hp : a.sender = .calling p) : ∃ bytes resume, p = .send bytes resume := by
  induction h with
  | refl => cases hp
  | tail hreach hstep ih =>
      obtain ⟨_, _, _, _, hsending, _⟩ := Reachable.inv hreach
      cases hstep with
      | receiver hstep =>
          cases hstep with
          | call _ => exact ih hp
          | recv _ _ _ _ => exact ih hp
          | eof _ _ _ => exact ih hp
          | fail _ => exact ih hp
      | fails n => exact ih hp
      | sender hstep =>
          cases hstep with
          | call m _ => exact send_of_after (F.put_sends m) hp
          | send t hcalling =>
              obtain ⟨rest, hsends, _⟩ := hsending.calling _ hcalling
              cases hsends with
              | send _ hsome _ => exact send_of_after (hsome t) hp
          | fail hcalling =>
              obtain ⟨rest, hsends, _⟩ := hsending.calling _ hcalling
              cases hsends with
              | send _ _ hnone => exact send_of_after hnone hp

/-- A sender in a call gets an answer. -/
theorem Reachable.exists_senderStep [Inhabited M] (h : Reachable F a) {p : Sock ε Unit}
    (hp : a.sender = .calling p) : ∃ b, SenderStep F a b := by
  obtain ⟨bytes, resume, rfl⟩ := h.sender_calling hp
  exact ⟨_, .send ⟨bytes.length, Nat.le_refl _, id⟩ hp⟩

/-- A receiver in a call gets an answer, unless the stream is up and nothing is on the wire. -/
theorem Reachable.exists_receiverStep [Inhabited M] (h : Reachable F a) {p : Sock ε M}
    (hp : a.receiver = .calling p) (hup : a.wire ≠ [] ∨ a.down = true) :
    ∃ b, ReceiverStep F a b := by
  obtain ⟨later, got, missing, hflow, _, hreceiving⟩ := h.inv
  obtain ⟨⟨size, resume, rfl⟩, haccepts⟩ := hreceiving.calling p hp
  cases hwire : a.wire with
  | nil => exact ⟨_, .eof hp hwire (hup.resolve_left fun hne => hne hwire)⟩
  | cons b more =>
      obtain ⟨m, hm⟩ := hflow.exists_head
      cases haccepts m hm with
      | recv hpos _ _ _ _ =>
          exact ⟨_, .recv ⟨[b], hpos⟩ hp (List.cons_ne_nil b []) ⟨more, hwire.symm⟩⟩

end Pipe

namespace Exchange

variable {F : Framing ε M} {S : Service σ Q R M} {s t : Exchange σ Q R ε M} {state : σ}

/-! ### The way that is left -/

/-- A step of the client in its call, or of the server. -/
def Advance (F : Framing ε M) (S : Service σ Q R M) (s t : Exchange σ Q R ε M) : Prop :=
  ClientStep F S s t ∨ ServerStep F S s t

/-- The places that the client still goes through. -/
def clientLeft (s : Exchange σ Q R ε M) : ℕ :=
  match s.client with
  | .sending _ => 4 + s.requests.sender.busy
  | .receiving _ => 1 + s.responses.receiver.busy
  | _ => 0

/-- Where a call of `get` is: the most is left after it has returned. -/
def getLeft : Party ε M → ℕ
  | .idle => 9
  | .calling _ => 4
  | .thrown _ => 3

/-- The places that the server still goes through: all of them for each message that it has
not received. -/
def serverLeft (s : Exchange σ Q R ε M) : ℕ :=
  10 * (s.requests.passed.length - s.requests.returned.length) +
    match s.server with
    | .ready => 5
    | .receiving => getLeft s.requests.receiver
    | .processing _ => 8
    | .sending => 6 + s.responses.sender.busy
    | .closing => 1
    | .closed => 0

abbrev Rank (ε M : Type) : Type :=
  ℕ × (Party ε Unit × Party ε M) × (Party ε Unit × Party ε M)

/-- The places that are left, and the programs of the calls. -/
def rank (s : Exchange σ Q R ε M) : Rank ε M :=
  (s.clientLeft + s.serverLeft, (s.requests.sender, s.requests.receiver),
    (s.responses.sender, s.responses.receiver))

/-- Fewer places are left, or one of the calls goes on. -/
def Less : Rank ε M → Rank ε M → Prop :=
  Prod.Lex (· < ·) (Prod.GameAdd (Prod.GameAdd Party.Later Party.Later)
    (Prod.GameAdd Party.Later Party.Later))

theorem wellFounded_less : WellFounded (@Less ε M) :=
  WellFounded.prod_lex Nat.lt_wfRel.wf
    ((Party.wellFounded_later.prod_gameAdd Party.wellFounded_later).prod_gameAdd
      (Party.wellFounded_later.prod_gameAdd Party.wellFounded_later))

theorem less_of_left (h : t.clientLeft + t.serverLeft < s.clientLeft + s.serverLeft) :
    Less t.rank s.rank := Prod.Lex.left _ _ h

theorem less_of_later (h : t.clientLeft + t.serverLeft = s.clientLeft + s.serverLeft)
    (hlater : Prod.GameAdd (Prod.GameAdd Party.Later Party.Later)
      (Prod.GameAdd Party.Later Party.Later)
      ((t.requests.sender, t.requests.receiver), (t.responses.sender, t.responses.receiver))
      ((s.requests.sender, s.requests.receiver), (s.responses.sender, s.responses.receiver))) :
    Less t.rank s.rank := by
  rw [rank, rank, h]
  exact Prod.Lex.right _ hlater

theorem getLeft_later {a b : Party ε M} (h : Party.Later a b) : getLeft a = getLeft b := by
  cases h with
  | calling _ => rfl

theorem ClientStep.less (h : ClientStep F S s t) : Less t.rank s.rank := by
  cases h with
  | @send q p requests hsending hp hstep =>
      obtain ⟨hpassed, hreturned, hreceiver, hlater⟩ := hstep.later hp
      have hserver : serverLeft { s with requests := requests } = s.serverLeft := by
        simp only [serverLeft, hpassed, hreturned, hreceiver]
      rcases hlater with hlater | hbusy
      · refine less_of_later ?_ ?_
        · rw [hserver]
          simp only [clientLeft, hsending, hlater.busy]
        · rw [hreceiver]
          exact .fst (.fst hlater)
      · refine less_of_left ?_
        rw [hserver]
        simp only [clientLeft, hsending, hbusy, hp, Party.busy_calling]
        omega
  | @sent q hsending hidle _ =>
      refine less_of_left (Nat.add_lt_add_right ?_ s.serverLeft)
      have hle := Party.busy_le (s.responses.resumeReceiver F.get).receiver
      simp only [clientLeft, hsending, hidle, Party.busy_idle]
      omega
  | @receive q p responses hreceiving hp hstep =>
      obtain ⟨-, hsender, hlater⟩ := hstep.later hp
      have hserver : serverLeft { s with responses := responses } = s.serverLeft := by
        simp only [serverLeft, hsender]
      rcases hlater with ⟨hlater, -⟩ | hended
      · refine less_of_later ?_ ?_
        · rw [hserver]
          simp only [clientLeft, hreceiving, hlater.busy]
        · rw [hsender]
          exact .snd (.snd hlater)
      · refine less_of_left ?_
        have hbusy : responses.receiver.busy = 0 := by
          rcases hended with ⟨hidle, -⟩ | ⟨⟨e, hthrown⟩, -⟩
          · rw [hidle, Party.busy_idle]
          · rw [hthrown, Party.busy_thrown]
        rw [hserver]
        simp only [clientLeft, hreceiving, hbusy, hp, Party.busy_calling]
        omega
  | @received q m hreceiving hidle hlast =>
      refine less_of_left (Nat.add_lt_add_right ?_ s.serverLeft)
      simp only [clientLeft, hreceiving]
      omega
  | @sendThrows q e hsending hthrown =>
      refine less_of_left (Nat.add_lt_add_right ?_ s.serverLeft)
      simp only [clientLeft, hsending]
      omega
  | @receiveThrows q e hreceiving hthrown =>
      refine less_of_left (Nat.add_lt_add_right ?_ s.serverLeft)
      simp only [clientLeft, hreceiving]
      omega

/-- The beginning of a call of `get`. -/
theorem getLeft_resumeReceiver (a : Pipe ε M) (p : Sock ε M)
    (hle : (a.resumeReceiver p).returned.length ≤ (a.resumeReceiver p).passed.length) :
    10 * ((a.resumeReceiver p).passed.length - (a.resumeReceiver p).returned.length) +
        getLeft (a.resumeReceiver p).receiver <
      10 * (a.passed.length - a.returned.length) + 5 := by
  cases p with
  | ret m =>
      simp only [Pipe.resumeReceiver, Sock.result, List.length_append, List.length_singleton,
        Party.after, getLeft] at hle ⊢
      omega
  | _ => simp [Pipe.resumeReceiver, Sock.result, Party.after, getLeft]

/-- A call of the server that has returned a message has less messages left to receive. -/
theorem ServerStep.less (h : ServerStep F S s t)
    (hle : t.requests.returned.length ≤ t.requests.passed.length) : Less t.rank s.rank := by
  cases h with
  | get hready _ =>
      refine less_of_left (Nat.add_lt_add_left ?_ s.clientLeft)
      have hget := getLeft_resumeReceiver s.requests F.get hle
      simp only [serverLeft, hready]
      exact hget
  | @getMore p requests hreceiving hp hstep =>
      obtain ⟨hpassed, hsender, hlater⟩ := hstep.later hp
      have hclient : clientLeft { s with requests := requests } = s.clientLeft := by
        simp only [clientLeft, hsender]
      rcases hlater with ⟨hlater, hreturned⟩ | ⟨hidle, hreturned⟩ | ⟨⟨e, hthrown⟩, hreturned⟩
      · refine less_of_later ?_ ?_
        · rw [hclient]
          simp only [serverLeft, hreceiving, hpassed, hreturned, getLeft_later hlater]
        · rw [hsender]
          exact .fst (.snd hlater)
      · refine less_of_left ?_
        dsimp only at hle
        rw [hclient]
        simp only [serverLeft, hreceiving, hpassed, hreturned, hidle, hp, getLeft]
        rw [hpassed, hreturned] at hle
        omega
      · refine less_of_left ?_
        rw [hclient]
        simp only [serverLeft, hreceiving, hpassed, hreturned, hthrown, hp, getLeft]
        omega
  | @got m hreceiving hidle hlast =>
      refine less_of_left (Nat.add_lt_add_left ?_ s.clientLeft)
      simp only [serverLeft, hreceiving, hidle, getLeft]
      omega
  | @process q r state' m hprocessing _ _ _ =>
      refine less_of_left (Nat.add_lt_add_left ?_ s.clientLeft)
      have hbusy := Party.busy_le
        ({ s.responses with passed := s.responses.passed ++ [m] }.resumeSender (F.put m)).sender
      simp only [serverLeft, hprocessing]
      exact Nat.add_lt_add_left
        (Nat.lt_of_le_of_lt (Nat.add_le_add_left hbusy 6) (Nat.lt_succ_self 7)) _
  | @processRefuse q r state' hprocessing _ _ =>
      refine less_of_left (Nat.add_lt_add_left ?_ s.clientLeft)
      simp only [serverLeft, hprocessing]
      omega
  | @respond p responses hsending hp hstep =>
      obtain ⟨-, -, hreceiver, hlater⟩ := hstep.later hp
      have hclient : clientLeft { s with responses := responses } = s.clientLeft := by
        simp only [clientLeft, hreceiver]
      rcases hlater with hlater | hbusy
      · refine less_of_later ?_ ?_
        · rw [hclient]
          simp only [serverLeft, hsending, hlater.busy]
        · rw [hreceiver]
          exact .snd (.fst hlater)
      · refine less_of_left ?_
        rw [hclient]
        simp only [serverLeft, hsending, hbusy, hp, Party.busy_calling]
        omega
  | responded hsending hidle =>
      refine less_of_left (Nat.add_lt_add_left ?_ s.clientLeft)
      simp only [serverLeft, hsending]
      omega
  | @getThrows e hreceiving hthrown =>
      refine less_of_left (Nat.add_lt_add_left ?_ s.clientLeft)
      simp only [serverLeft, hreceiving, hthrown, getLeft]
      omega
  | @respondThrows e hsending _ =>
      refine less_of_left (Nat.add_lt_add_left ?_ s.clientLeft)
      simp only [serverLeft, hsending]
      omega
  | close n k hclosing =>
      refine less_of_left (Nat.add_lt_add_left ?_ s.clientLeft)
      simp only [serverLeft, hclosing, fail]
      omega

/-! ### A step is possible -/

variable [Inhabited M]

/-- What the parties know when no message is under way: the client is not waiting. -/
theorem Reachable.not_both_wait (h : Reachable F S state s) {q : Q}
    (hclient : s.client = .receiving q) (hserver : s.server = .receiving)
    {p p' : Sock ε M} (hresponse : s.responses.receiver = .calling p)
    (hrequest : s.requests.receiver = .calling p') (hresponses : s.responses.down = false)
    (hrequests : s.requests.down = false) (hwire : s.responses.wire = [])
    (hwire' : s.requests.wire = []) : False := by
  obtain ⟨hreach, hreach'⟩ := h.pipes
  have hinv := h.inv
  have hc := hinv.client
  rw [hclient] at hc
  obtain ⟨hsender, hpassed, hasked, hgot⟩ := hc
  have hs := hinv.server
  rw [hserver] at hs
  obtain ⟨hsender', hgot', hpassed'⟩ := hs
  have hall := hreach.returned_eq hsender hrequests (by rw [hrequest]; simp) hwire'
  have hall' := hreach'.returned_eq hsender' hresponses (by rw [hresponse]; simp) hwire
  have hanswered := hgot.of_calling hresponse
  have hprocessed := hgot'.of_calling hrequest
  -- all requests are processed, and all responses received
  rw [hall, hpassed, hasked] at hprocessed
  rw [hall', hpassed'] at hanswered
  have hlength := congrArg List.length hprocessed
  have hlength' := congrArg List.length hanswered
  simp only [List.length_append, List.length_map, List.length_singleton] at hlength hlength'
  omega

/-- The server can go on, or it waits for a message. -/
theorem Reachable.exists_serverStep (h : Reachable F S state s)
    (htotal : ∀ state q, ∃ r state', S.process state q r state') :
    (∃ t, ServerStep F S s t) ∨ s.server = .closed ∨
      (s.server = .receiving ∧ (∃ p, s.requests.receiver = .calling p) ∧
        s.requests.wire = [] ∧ s.requests.down = false) := by
  obtain ⟨hreach, hreach'⟩ := h.pipes
  have hs := h.inv.server
  cases hserver : s.server with
  | ready =>
      rw [hserver] at hs
      exact .inl ⟨_, .get hserver hs.1⟩
  | receiving =>
      rw [hserver] at hs
      cases hreceiver : s.requests.receiver with
      | idle =>
          rcases hs.2.1 with ⟨-, m, hlast, -⟩ | ⟨hne, -⟩
          · exact .inl ⟨_, .got hserver hreceiver hlast⟩
          · exact absurd hreceiver hne
      | thrown e => exact .inl ⟨_, .getThrows hserver hreceiver⟩
      | calling p =>
          by_cases hup : s.requests.wire ≠ [] ∨ s.requests.down = true
          · obtain ⟨b, hstep⟩ := hreach.exists_receiverStep hreceiver hup
            exact .inl ⟨_, .getMore hserver hreceiver hstep⟩
          · simp only [not_or, not_not, Bool.not_eq_true] at hup
            exact .inr (.inr ⟨rfl, ⟨p, rfl⟩, hup⟩)
  | processing q =>
      rw [hserver] at hs
      obtain ⟨r, state', hprocess⟩ := htotal s.state q
      cases hr : S.response r with
      | none => exact .inl ⟨_, .processRefuse hserver hprocess hr⟩
      | some m => exact .inl ⟨_, .process hserver hprocess hs.2.1 hr⟩
  | sending =>
      cases hsender : s.responses.sender with
      | idle => exact .inl ⟨_, .responded hserver hsender⟩
      | thrown e => exact .inl ⟨_, .respondThrows hserver hsender⟩
      | calling p =>
          obtain ⟨b, hstep⟩ := hreach'.exists_senderStep hsender
          exact .inl ⟨_, .respond hserver hsender hstep⟩
  | closing => exact .inl ⟨_, .close 0 0 hserver⟩
  | closed => exact .inr (.inl rfl)

/-- As long as the client is in its call, a step is possible. -/
theorem Reachable.exists_advance (h : Reachable F S state s)
    (htotal : ∀ state q, ∃ r state', S.process state q r state')
    (hcall : s.client ≠ .ready ∧ s.client ≠ .thrown) : ∃ t, Advance F S s t := by
  obtain ⟨hreach, hreach'⟩ := h.pipes
  have hc := h.inv.client
  cases hclient : s.client with
  | ready => exact absurd hclient hcall.1
  | thrown => exact absurd hclient hcall.2
  | sending q =>
      rw [hclient] at hc
      cases hsender : s.requests.sender with
      | idle => exact ⟨_, .inl (.sent hclient hsender hc.1)⟩
      | thrown e => exact ⟨_, .inl (.sendThrows hclient hsender)⟩
      | calling p =>
          obtain ⟨b, hstep⟩ := hreach.exists_senderStep hsender
          exact ⟨_, .inl (.send hclient hsender hstep)⟩
  | receiving q =>
      rw [hclient] at hc
      cases hreceiver : s.responses.receiver with
      | idle =>
          rcases hc.2.2.2 with ⟨-, m, hlast, -⟩ | ⟨hne, -⟩
          · exact ⟨_, .inl (.received hclient hreceiver hlast)⟩
          · exact absurd hreceiver hne
      | thrown e => exact ⟨_, .inl (.receiveThrows hclient hreceiver)⟩
      | calling p =>
          by_cases hup : s.responses.wire ≠ [] ∨ s.responses.down = true
          · obtain ⟨b, hstep⟩ := hreach'.exists_receiverStep hreceiver hup
            exact ⟨_, .inl (.receive hclient hreceiver hstep)⟩
          · simp only [not_or, not_not, Bool.not_eq_true] at hup
            -- the client waits, so the server does not
            rcases h.exists_serverStep htotal with
              ⟨t, hstep⟩ | hclosed | ⟨hs, ⟨p', hp'⟩, hwire, hdown⟩
            · exact ⟨t, .inr hstep⟩
            · rw [h.inv.closed hclosed] at hup
              cases hup.2
            · exact (h.not_both_wait hclient hs hreceiver hp' hup.2 hdown hup.1 hwire).elim

/-- **A call of the client ends.** From every state, and in every run without further failures
of the streams, it ends: all requests are processed and answered then, or the client has got
an exception. -/
theorem Reachable.call_ends (h : Reachable F S state s)
    (htotal : ∀ state q, ∃ r state', S.process state q r state') :
    Pipe.Inevitable (Advance F S) (fun t => Reachable F S state t ∧ t.asked = s.asked ∧
      (t.client = .ready ∨ t.client = .thrown)) s := by
  have hstep : ∀ t u : Exchange σ Q R ε M, Reachable F S state t ∧ t.asked = s.asked →
      Advance F S t u → Reachable F S state u ∧ u.asked = s.asked := by
    rintro t u ⟨ht, hasked⟩ hadvance
    rcases hadvance with hstep | hstep
    · refine ⟨ht.tail (.client hstep), ?_⟩
      rw [← hasked]
      cases hstep <;> rfl
    · refine ⟨ht.tail (.server hstep), ?_⟩
      rw [← hasked]
      cases hstep <;> rfl
  refine .of_wellFounded wellFounded_less
    (fun t => Reachable F S state t ∧ t.asked = s.asked) rank hstep ?_ ?_ ⟨h, rfl⟩
  · intro t u ht hadvance
    rcases hadvance with hclient | hserver
    · exact hclient.less
    · have hu := (hstep t u ht (.inr hserver)).1
      obtain ⟨hrequests, -⟩ := hu.pipes
      exact hserver.less hrequests.returned_prefix.length_le
  · rintro t ⟨ht, hasked⟩
    by_cases hready : t.client = .ready
    · exact .inl ⟨ht, hasked, .inl hready⟩
    · by_cases hthrown : t.client = .thrown
      · exact .inl ⟨ht, hasked, .inr hthrown⟩
      · exact .inr (ht.exists_advance htotal ⟨hready, hthrown⟩)

end Exchange

end Imp

import Mathlib.Data.Nat.Notation
import Mathlib.Logic.Relation

/-!
# Programs over a Stream Socket

A program of type `Sock ε α` calls `send` and `recv` of a socket and ends with a value or an
exception. What a call transfers is the answer it gets: a part of what it asked for, of at
least one byte, or a failure. A program is a tree that branches over these answers, so it ends
after finitely many calls, whatever the socket does.

A *framing* is a way to pass messages over a stream of bytes: one program puts a message on
the stream, another gets one from it. `Pipe` is the system of two parties that do so, one
after the other message, over a stream that may fail at any time. The rules of correctness are
`Sends`, about all a program may send, and `Accepts`, about what it makes of the bytes it
receives, and both are independent of how the socket splits the bytes.

## Main results

* `Sends.bind`, `Accepts.bind`, `Run.bind`, `Run.bind_inv`: the rules of sequencing.
* `Pipe.Reachable.inv`: in every interleaving, what is returned, what is under way and what is
  lost are together what was passed.
* `Pipe.Reachable.returned_prefix`, `Pipe.Reachable.returned_eq`: messages are neither
  truncated nor merged, and lost only with an exception or a failure of the stream.
* `Pipe.Reachable.call_ends`: over a stream that has failed, the receiving call ends, with
  the next message or an exception.
-/

namespace Imp

variable {ε α β M : Type}

/-- How many of `n` bytes a call transfers: at least one, if there is one. -/
structure Transfer (n : ℕ) where
  count : ℕ
  le : count ≤ n
  pos : 0 < n → 0 < count

/-- The bytes that a call asking for `n` of them delivers; none at the end of the stream. -/
structure Chunk (n : ℕ) where
  bytes : List UInt8
  le : bytes.length ≤ n

/-- The answer of `recv` at the end of the stream. -/
def Chunk.eof (n : ℕ) : Chunk n := ⟨[], Nat.zero_le n⟩

/-- A program over a stream socket. The answer to a call is what it transfers, or `none` if
it fails. -/
inductive Sock (ε α : Type) where
  | ret (a : α)
  | throw (e : ε)
  | send (bytes : List UInt8) (resume : Option (Transfer bytes.length) → Sock ε α)
  | recv (size : ℕ) (resume : Option (Chunk size) → Sock ε α)

namespace Sock

/-- Continue a program that returned. -/
def bind : Sock ε α → (α → Sock ε β) → Sock ε β
  | ret a, f => f a
  | throw e, _ => throw e
  | send bytes resume, f => send bytes fun answer => (resume answer).bind f
  | recv size resume, f => recv size fun answer => (resume answer).bind f

instance : Monad (Sock ε) where
  pure := ret
  bind := bind

@[simp] theorem pure_eq (a : α) : (pure a : Sock ε α) = ret a := rfl

@[simp] theorem ret_bind (a : α) (f : α → Sock ε β) : (ret a >>= f) = f a := rfl

@[simp] theorem throw_bind (e : ε) (f : α → Sock ε β) : (throw e >>= f) = throw e := rfl

/-- All that the program may still send is an initial part of the bytes, and it returns only
after the last of them. -/
inductive Sends : Sock ε α → List UInt8 → Prop
  | ret (a : α) : Sends (ret a) []
  | throw (e : ε) (rest : List UInt8) : Sends (throw e) rest
  | send {bytes rest : List UInt8} {resume : Option (Transfer bytes.length) → Sock ε α} :
      bytes <+: rest → (∀ t, Sends (resume (some t)) (rest.drop t.count)) →
      Sends (resume none) rest → Sends (send bytes resume) rest

/-- From a stream that goes on with the bytes, the program takes exactly these and returns the
value, however they are split. It never asks for more, and without them it throws. -/
inductive Accepts : Sock ε α → List UInt8 → α → Prop
  | ret (a : α) : Accepts (ret a) [] a
  | recv {size : ℕ} {rest : List UInt8} {a : α} {resume : Option (Chunk size) → Sock ε α} :
      0 < size → size ≤ rest.length →
      (∀ c : Chunk size, c.bytes ≠ [] → c.bytes <+: rest →
        Accepts (resume (some c)) (rest.drop c.bytes.length) a) →
      (∃ e, resume (some (.eof size)) = Sock.throw e) → (∃ e, resume none = Sock.throw e) →
      Accepts (recv size resume) rest a

/-- Sending one byte string after the other. -/
theorem Sends.bind {p : Sock ε α} {f : α → Sock ε β} {x y : List UInt8} (h : Sends p x)
    (hf : ∀ a, Sends (f a) y) : Sends (p >>= f) (x ++ y) := by
  induction h with
  | ret a => exact hf a
  | throw e rest => exact .throw e _
  | @send bytes rest resume hpre _ _ ih ihfail =>
      refine .send (hpre.trans (List.prefix_append rest y)) (fun t => ?_) ihfail
      have hle : t.count ≤ rest.length := Nat.le_trans t.le hpre.length_le
      have hdrop := ih t
      rw [← List.drop_append_of_le_length hle] at hdrop
      exact hdrop

/-- Taking one byte string after the other. -/
theorem Accepts.bind {p : Sock ε α} {f : α → Sock ε β} {x y : List UInt8} {a : α} {b : β}
    (h : Accepts p x a) (hf : Accepts (f a) y b) : Accepts (p >>= f) (x ++ y) b := by
  induction h with
  | ret a => exact hf
  | @recv size rest a resume hpos hsize _ heof hfail ih =>
      have ih := fun c hne hpre => ih c hne hpre hf
      refine .recv hpos (by rw [List.length_append]; omega) (fun c hne hpre => ?_) ?_ ?_
      · have hle : c.bytes.length ≤ rest.length := Nat.le_trans c.le hsize
        have hrest : c.bytes <+: rest :=
          List.prefix_of_prefix_length_le hpre (List.prefix_append rest y) hle
        have hdrop := ih c hne hrest
        rw [← List.drop_append_of_le_length hle] at hdrop
        exact hdrop
      · obtain ⟨e, he⟩ := heof
        exact ⟨e, by rw [he]; rfl⟩
      · obtain ⟨e, he⟩ := hfail
        exact ⟨e, by rw [he]; rfl⟩

/-- A program that takes its bytes has returned if it has them all, and is in a call
otherwise. -/
theorem Accepts.cases_ret {p : Sock ε α} {rest : List UInt8} {a : α} (h : Accepts p rest a) :
    p = Sock.ret a ∧ rest = [] ∨ (∃ size resume, p = Sock.recv size resume) ∧ rest ≠ [] := by
  cases h with
  | ret => exact .inl ⟨rfl, rfl⟩
  | recv hpos hsize =>
      refine .inr ⟨⟨_, _, rfl⟩, ?_⟩
      rintro rfl
      simp at hsize
      omega

/-- What the program has returned, if it has. -/
def result : Sock ε α → List α
  | ret a => [a]
  | _ => []

end Sock

/-! ### Runs over a socket that does not fail -/

/-- A call, and what it transferred. -/
inductive Event where
  | sent (bytes : List UInt8) (count : ℕ)
  | received (size : ℕ) (bytes : List UInt8)

/-- The bytes that were sent. -/
def transmitted : List Event → List UInt8
  | [] => []
  | .sent bytes count :: events => bytes.take count ++ transmitted events
  | .received _ _ :: events => transmitted events

@[simp] theorem transmitted_append (events events' : List Event) :
    transmitted (events ++ events') = transmitted events ++ transmitted events' := by
  induction events with
  | nil => rfl
  | cons event events ih =>
      cases event with
      | sent bytes count => simp [transmitted, ih]
      | received size bytes => exact ih

namespace Sock

/-- The program runs to its end, with the calls listed, while the first of the bytes come in
and the second are left. -/
inductive Run : Sock ε α → List UInt8 → List Event → Sock ε α → List UInt8 → Prop
  | ret (a : α) (incoming : List UInt8) : Run (ret a) incoming [] (ret a) incoming
  | throw (e : ε) (incoming : List UInt8) : Run (throw e) incoming [] (throw e) incoming
  | send {bytes incoming left : List UInt8} {events : List Event} {r : Sock ε α}
      {resume : Option (Transfer bytes.length) → Sock ε α} (t : Transfer bytes.length) :
      Run (resume (some t)) incoming events r left →
      Run (send bytes resume) incoming (.sent bytes t.count :: events) r left
  | recv {size : ℕ} {incoming left : List UInt8} {events : List Event} {r : Sock ε α}
      {resume : Option (Chunk size) → Sock ε α} (c : Chunk size) : c.bytes ≠ [] →
      Run (resume (some c)) incoming events r left →
      Run (recv size resume) (c.bytes ++ incoming) (.received size c.bytes :: events) r left

/-- A sequence runs through its first part, and ends there with an exception or goes on. -/
theorem Run.bind_inv {p : Sock ε α} {f : α → Sock ε β} {incoming left : List UInt8}
    {events : List Event} {r : Sock ε β} (h : Run (p >>= f) incoming events r left) :
    (∃ a between events₁ events₂, Run p incoming events₁ (Sock.ret a) between ∧
      Run (f a) between events₂ r left ∧ events = events₁ ++ events₂) ∨
    ∃ e, Run p incoming events (Sock.throw e) left ∧ r = Sock.throw e := by
  induction p generalizing incoming events with
  | ret a => exact .inl ⟨a, incoming, [], events, .ret a _, h, rfl⟩
  | throw e =>
      cases h with
      | throw => exact .inr ⟨e, .throw e _, rfl⟩
  | send bytes resume ih =>
      cases h with
      | send t h =>
          rcases ih _ h with ⟨a, between, events₁, events₂, hp, hf, rfl⟩ | ⟨e, hp, rfl⟩
          · exact .inl ⟨a, between, _, events₂, .send t hp, hf, rfl⟩
          · exact .inr ⟨e, .send t hp, rfl⟩
  | recv size resume ih =>
      cases h with
      | recv c hne h =>
          rcases ih _ h with ⟨a, between, events₁, events₂, hp, hf, rfl⟩ | ⟨e, hp, rfl⟩
          · exact .inl ⟨a, between, _, events₂, .recv c hne hp, hf, rfl⟩
          · exact .inr ⟨e, .recv c hne hp, rfl⟩

theorem Run.bind {p : Sock ε α} {f : α → Sock ε β} {incoming between left : List UInt8}
    {events events' : List Event} {a : α} {r : Sock ε β}
    (h : Run p incoming events (Sock.ret a) between) (hf : Run (f a) between events' r left) :
    Run (p >>= f) incoming (events ++ events') r left := by
  induction p generalizing incoming events with
  | ret b =>
      cases h with
      | ret => exact hf
  | throw e => cases h
  | send bytes resume ih =>
      cases h with
      | send t h => exact .send t (ih _ h)
  | recv size resume ih =>
      cases h with
      | recv c hne h => exact .recv c hne (ih _ h)

end Sock

/-! ### Framings -/

/-- Messages over a stream of bytes: `put` sends a message as its frame, and `get` takes the
frame of a message and returns it. -/
structure Framing (ε M : Type) where
  frame : M → List UInt8
  put : M → Sock ε Unit
  get : Sock ε M
  frame_ne_nil : ∀ m, frame m ≠ []
  put_sends : ∀ m, (put m).Sends (frame m)
  get_accepts : ∀ m, get.Accepts (frame m) m

/-- The frames of the messages, one after the other. -/
def Framing.stream (F : Framing ε M) (messages : List M) : List UInt8 :=
  (messages.map F.frame).flatten

@[simp] theorem Framing.stream_nil (F : Framing ε M) : F.stream [] = [] := rfl

@[simp] theorem Framing.stream_cons (F : Framing ε M) (m : M) (l : List M) :
    F.stream (m :: l) = F.frame m ++ F.stream l := by
  simp [Framing.stream]

@[simp] theorem Framing.stream_append (F : Framing ε M) (l l' : List M) :
    F.stream (l ++ l') = F.stream l ++ F.stream l' := by
  simp [Framing.stream]

theorem Framing.stream_eq_nil {F : Framing ε M} {l : List M} (h : F.stream l = []) :
    l = [] := by
  cases l with
  | nil => rfl
  | cons m l =>
      rw [Framing.stream_cons, List.append_eq_nil_iff] at h
      exact absurd h.1 (F.frame_ne_nil m)

/-- Where a party stands: between two calls, in a call, or after an exception. -/
inductive Party (ε α : Type) where
  | idle
  | calling (p : Sock ε α)
  | thrown (e : ε)

/-- Where a party stands whose call has the program left. -/
def Party.after : Sock ε α → Party ε α
  | .ret _ => .idle
  | .throw e => .thrown e
  | p => .calling p

/-- Two parties and the stream from one to the other: the messages passed to the sending calls
so far, the bytes on the wire, whether the stream has failed, the bytes that the receiver has
consumed, and the messages that its calls have returned. -/
structure Pipe (ε M : Type) where
  passed : List M
  sender : Party ε Unit
  wire : List UInt8
  down : Bool
  receiver : Party ε M
  consumed : List UInt8
  returned : List M

namespace Pipe

/-- Before the first call. -/
def start : Pipe ε M := ⟨[], .idle, [], false, .idle, [], []⟩

def resumeSender (s : Pipe ε M) (p : Sock ε Unit) : Pipe ε M :=
  { s with sender := .after p }

def resumeReceiver (s : Pipe ε M) (p : Sock ε M) : Pipe ε M :=
  { s with receiver := .after p, returned := s.returned ++ p.result }

/-- Bytes go on the wire, and are lost if the stream has failed. -/
def transmit (s : Pipe ε M) (bytes : List UInt8) : Pipe ε M :=
  { s with wire := if s.down then s.wire else s.wire ++ bytes }

/-- The sender calls `put` for some message, or its call gets an answer. -/
inductive SenderStep (F : Framing ε M) : Pipe ε M → Pipe ε M → Prop
  | call {s : Pipe ε M} (m : M) : s.sender = .idle →
      SenderStep F s ({ s with passed := s.passed ++ [m] }.resumeSender (F.put m))
  | send {s : Pipe ε M} {bytes : List UInt8}
      {resume : Option (Transfer bytes.length) → Sock ε Unit} (t : Transfer bytes.length) :
      s.sender = .calling (.send bytes resume) →
      SenderStep F s ((s.transmit (bytes.take t.count)).resumeSender (resume (some t)))
  | fail {s : Pipe ε M} {bytes : List UInt8}
      {resume : Option (Transfer bytes.length) → Sock ε Unit} :
      s.sender = .calling (.send bytes resume) →
      SenderStep F s (s.resumeSender (resume none))

/-- The receiver calls `get`, or its call gets an answer: some of the bytes on the wire, the
end of a stream that has failed, or a failure. -/
inductive ReceiverStep (F : Framing ε M) : Pipe ε M → Pipe ε M → Prop
  | call {s : Pipe ε M} : s.receiver = .idle → ReceiverStep F s (s.resumeReceiver F.get)
  | recv {s : Pipe ε M} {size : ℕ} {resume : Option (Chunk size) → Sock ε M}
      (c : Chunk size) : s.receiver = .calling (.recv size resume) → c.bytes ≠ [] →
      c.bytes <+: s.wire →
      ReceiverStep F s ({ s with
        wire := s.wire.drop c.bytes.length
        consumed := s.consumed ++ c.bytes }.resumeReceiver (resume (some c)))
  | eof {s : Pipe ε M} {size : ℕ} {resume : Option (Chunk size) → Sock ε M} :
      s.receiver = .calling (.recv size resume) → s.wire = [] → s.down = true →
      ReceiverStep F s (s.resumeReceiver (resume (some (.eof size))))
  | fail {s : Pipe ε M} {size : ℕ} {resume : Option (Chunk size) → Sock ε M} :
      s.receiver = .calling (.recv size resume) →
      ReceiverStep F s (s.resumeReceiver (resume none))

/-- A step of either party, or the stream fails and loses some of the bytes on the wire. -/
inductive Step (F : Framing ε M) : Pipe ε M → Pipe ε M → Prop
  | sender {s t : Pipe ε M} : SenderStep F s t → Step F s t
  | receiver {s t : Pipe ε M} : ReceiverStep F s t → Step F s t
  | fails (s : Pipe ε M) (n : ℕ) : Step F s { s with wire := s.wire.take n, down := true }

/-- The states of all runs. -/
def Reachable (F : Framing ε M) : Pipe ε M → Prop :=
  Relation.ReflTransGen (Step F) start

/-! ### The invariant

The messages passed are those returned and some `later` ones. The frames of these are on their
way: the receiver has `got` a part of the first, more of it is on the wire, and the rest is
`missing`, because it is not sent yet or because it is lost. -/

/-- What is returned, what is under way and what is missing are together what was passed. -/
structure Flow (F : Framing ε M) (s : Pipe ε M) (later : List M)
    (got missing : List UInt8) : Prop where
  passed : s.passed = s.returned ++ later
  bytes : got ++ s.wire ++ missing = F.stream later
  consumed : s.consumed = F.stream s.returned ++ got
  head : ∀ m l, later = m :: l → got <+: F.frame m

/-- A sender in a call may send what is missing, and nothing else. -/
structure Sending (q : Party ε Unit) (down : Bool) (missing : List UInt8) : Prop where
  idle : q = .idle → down = false → missing = []
  calling : ∀ p, q = .calling p → ∃ rest, p.Sends rest ∧ (down = false → missing = rest)

/-- A receiver that has got the beginning of the frame of a message accepts the rest of it. -/
structure Receiving (F : Framing ε M) (r : Party ε M) (got : List UInt8) : Prop where
  idle : r = .idle → got = []
  calling : ∀ p, r = .calling p → (∃ size resume, p = .recv size resume) ∧
    ∀ m, got <+: F.frame m → p.Accepts ((F.frame m).drop got.length) m

/-- The invariant of all runs. -/
def Inv (F : Framing ε M) (s : Pipe ε M) : Prop :=
  ∃ later got missing, s.Flow F later got missing ∧ Sending s.sender s.down missing ∧
    Receiving F s.receiver got

variable {F : Framing ε M} {s t : Pipe ε M} {later : List M} {got missing rest : List UInt8}

theorem Sending.after {p : Sock ε Unit} {down : Bool} (h : p.Sends rest)
    (hrest : down = false → missing = rest) : Sending (.after p) down missing := by
  cases h with
  | ret => exact ⟨fun _ => hrest, fun _ h => by cases h⟩
  | throw e => exact ⟨fun h => (by cases h), fun _ h => by cases h⟩
  | send hpre hsome hnone =>
      refine ⟨fun h => (by cases h), fun p hp => ?_⟩
      cases hp
      exact ⟨rest, .send hpre hsome hnone, hrest⟩

/-- A sender whose stream has failed sends nothing any more. -/
theorem Sending.fails {q : Party ε Unit} {down : Bool} {missing' : List UInt8}
    (h : Sending q down missing) : Sending q true missing' where
  idle _ hdown := by cases hdown
  calling p hp := by
    obtain ⟨rest, hsends, _⟩ := h.calling p hp
    exact ⟨rest, hsends, fun hdown => by cases hdown⟩

theorem Receiving.after {p : Sock ε M}
    (h : ∀ m, got <+: F.frame m → p.Accepts ((F.frame m).drop got.length) m)
    (hcall : ∃ size resume, p = .recv size resume) : Receiving F (.after p) got := by
  obtain ⟨size, resume, rfl⟩ := hcall
  refine ⟨fun h => (by cases h), fun p hp => ?_⟩
  cases hp
  exact ⟨⟨_, _, rfl⟩, h⟩

theorem Receiving.of_throw {p : Sock ε M} (h : ∃ e, p = .throw e) :
    Receiving F (.after p) got := by
  obtain ⟨e, rfl⟩ := h
  exact ⟨fun h => (by cases h), fun _ h => by cases h⟩

theorem result_of_throw {p : Sock ε M} (h : ∃ e, p = .throw e) : p.result = [] := by
  obtain ⟨e, rfl⟩ := h
  rfl

/-- A frame is not empty, so the receiver waits for one. -/
theorem get_calls [Inhabited M] (F : Framing ε M) :
    ∃ size resume, F.get = .recv size resume := by
  rcases (F.get_accepts default).cases_ret with ⟨_, hnil⟩ | ⟨hcall, _⟩
  · exact absurd hnil (F.frame_ne_nil default)
  · exact hcall

theorem Flow.resumeSender {p : Sock ε Unit} (h : s.Flow F later got missing) :
    (s.resumeSender p).Flow F later got missing :=
  ⟨h.passed, h.bytes, h.consumed, h.head⟩

/-- A call that ends without a value leaves everything under way. -/
theorem Flow.resumeReceiver {p : Sock ε M} (h : s.Flow F later got missing)
    (hp : p.result = []) : (s.resumeReceiver p).Flow F later got missing where
  passed := by simp [Pipe.resumeReceiver, hp, h.passed]
  bytes := h.bytes
  consumed := by simp [Pipe.resumeReceiver, hp, h.consumed]
  head := h.head

/-! ### The steps of the sender -/

/-- Passing a message makes its frame missing. -/
theorem Flow.pass (h : s.Flow F later got missing) (m : M)
    (hmissing : s.down = false → missing = []) :
    ∃ missing', { s with passed := s.passed ++ [m] }.Flow F (later ++ [m]) got missing' ∧
      (s.down = false → missing' = F.frame m) := by
  refine ⟨missing ++ F.frame m, ⟨?_, ?_, h.consumed, ?_⟩, fun hdown => ?_⟩
  · simp [h.passed]
  · simp [← h.bytes]
  · intro m' l hlater
    cases hl : later with
    | nil =>
        have hbytes := h.bytes
        simp only [hl, Framing.stream_nil, List.append_eq_nil_iff] at hbytes
        rw [hbytes.1.1]
        exact List.nil_prefix
    | cons m₀ l₀ =>
        rw [hl, List.cons_append, List.cons.injEq] at hlater
        obtain ⟨rfl, _⟩ := hlater
        exact h.head m₀ l₀ hl
  · rw [hmissing hdown, List.nil_append]

theorem transmit_of_down {bytes : List UInt8} (hdown : s.down = true) :
    s.transmit bytes = s := by
  rw [transmit, if_pos hdown]

/-- What is sent is no longer missing. -/
theorem Flow.transmit {bytes : List UInt8} (h : s.Flow F later got missing) (n : ℕ)
    (hdown : s.down = false) (hbytes : bytes <+: missing) (hn : n ≤ bytes.length) :
    (s.transmit (bytes.take n)).Flow F later got (missing.drop n) where
  passed := h.passed
  bytes := by
    obtain ⟨tail, rfl⟩ := hbytes
    rw [← h.bytes, List.drop_append_of_le_length hn, Pipe.transmit, if_neg (by simp [hdown])]
    simp only [List.append_assoc, List.append_cancel_left_eq]
    rw [← List.append_assoc, List.take_append_drop]
  consumed := h.consumed
  head := h.head

theorem SenderStep.inv (hstep : SenderStep F s t) (h : s.Inv F) : t.Inv F := by
  obtain ⟨later, got, missing, hflow, hsending, hreceiving⟩ := h
  cases hstep with
  | call m hidle =>
      obtain ⟨missing', hflow', hmissing'⟩ := hflow.pass m (hsending.idle hidle)
      exact ⟨later ++ [m], got, missing', hflow'.resumeSender,
        .after (F.put_sends m) hmissing', hreceiving⟩
  | @send bytes resume n hcalling =>
      obtain ⟨rest, hsends, hrest⟩ := hsending.calling _ hcalling
      cases hsends with
      | send hpre hsome _ =>
          by_cases hdown : s.down = true
          · rw [transmit_of_down hdown]
            refine ⟨later, got, missing, hflow.resumeSender, ?_, hreceiving⟩
            exact .after (hsome n) fun hfalse => absurd (hdown.symm.trans hfalse) (by simp)
          · have hdown : s.down = false := by simpa using hdown
            obtain rfl := hrest hdown
            exact ⟨later, got, missing.drop n.count,
              (hflow.transmit n.count hdown hpre n.le).resumeSender,
              .after (hsome n) fun _ => rfl, hreceiving⟩
  | fail hcalling =>
      obtain ⟨rest, hsends, hrest⟩ := hsending.calling _ hcalling
      cases hsends with
      | send _ _ hnone =>
          exact ⟨later, got, missing, hflow.resumeSender, .after hnone hrest, hreceiving⟩

/-! ### The steps of the receiver -/

section Receiver

variable {size : ℕ} {resume : Option (Chunk size) → Sock ε M} {c : Chunk size} {m : M}

/-- What the receiver has got may be the beginning of some message. -/
theorem Flow.exists_head [Inhabited M] (h : s.Flow F later got missing) :
    ∃ m, got <+: F.frame m := by
  cases hl : later with
  | nil =>
      have hbytes := h.bytes
      simp only [hl, Framing.stream_nil, List.append_eq_nil_iff] at hbytes
      exact ⟨default, hbytes.1.1 ▸ List.nil_prefix⟩
  | cons m l => exact ⟨m, h.head m l hl⟩

/-- With more of the frame, what is left of the frame is accepted. -/
theorem accepts_chunk
    (h : ∀ m, got <+: F.frame m →
      (Sock.recv size resume).Accepts ((F.frame m).drop got.length) m)
    (hne : c.bytes ≠ []) (hm : got ++ c.bytes <+: F.frame m) :
    (resume (some c)).Accepts ((F.frame m).drop (got ++ c.bytes).length) m := by
  obtain ⟨rest, hrest⟩ := hm
  have haccepts := h m ⟨c.bytes ++ rest, by rw [← hrest, List.append_assoc]⟩
  rw [← hrest, List.append_assoc, List.drop_left] at haccepts
  rw [← hrest, List.drop_left]
  cases haccepts with
  | recv _ _ hchunk _ _ =>
      have hafter := hchunk c hne (List.prefix_append _ _)
      rwa [List.drop_left] at hafter

/-- What the receiver takes from the wire is more of the frame it has got a part of. -/
theorem Flow.recv (h : s.Flow F later got missing)
    (hcalling : ∀ m, got <+: F.frame m →
      (Sock.recv size resume).Accepts ((F.frame m).drop got.length) m)
    (hne : c.bytes ≠ []) (hwire : c.bytes <+: s.wire) :
    ∃ m l, later = m :: l ∧ got ++ c.bytes <+: F.frame m := by
  obtain ⟨more, hmore⟩ := hwire
  cases hl : later with
  | nil =>
      have hbytes := h.bytes
      simp only [hl, Framing.stream_nil, List.append_eq_nil_iff] at hbytes
      rw [hbytes.1.2, List.append_eq_nil_iff] at hmore
      exact absurd hmore.1 hne
  | cons m l =>
      obtain ⟨rest, hrest⟩ := h.head m l hl
      have haccepts := hcalling m (h.head m l hl)
      have hstream := h.bytes
      rw [hl, Framing.stream_cons, ← hrest, ← hmore] at hstream
      simp only [List.append_assoc, List.append_cancel_left_eq] at hstream
      rw [← hrest, List.drop_left] at haccepts
      cases haccepts with
      | recv _ hsize _ _ _ =>
          have hpre : c.bytes <+: rest :=
            List.prefix_of_prefix_length_le ⟨more ++ missing, hstream⟩
              (List.prefix_append rest _) (Nat.le_trans c.le hsize)
          refine ⟨m, l, rfl, ?_⟩
          rw [← hrest]
          exact (List.prefix_append_right_inj got).2 hpre

/-- At the end of the stream and after a failure the call ends with an exception. -/
theorem Receiving.throws [Inhabited M] (h : Receiving F s.receiver got)
    (hflow : s.Flow F later got missing) (hcalling : s.receiver = .calling (.recv size resume)) :
    (∃ e, resume (some (.eof size)) = .throw e) ∧ ∃ e, resume none = .throw e := by
  obtain ⟨m, hm⟩ := hflow.exists_head
  cases (h.calling _ hcalling).2 m hm with
  | recv _ _ _ heof hfail => exact ⟨heof, hfail⟩

end Receiver

/-- The frame of a message is complete: the call returns it. -/
theorem Flow.complete {p : Sock ε M} {m : M} {l : List M} {bytes more : List UInt8}
    (h : s.Flow F (m :: l) got missing) (hwire : bytes ++ more = s.wire)
    (hframe : got ++ bytes = F.frame m) (hp : p = .ret m) :
    ({ s with wire := more, consumed := s.consumed ++ bytes }.resumeReceiver p).Flow F l []
      missing where
  passed := by simp [Pipe.resumeReceiver, hp, Sock.result, h.passed]
  bytes := by
    have hbytes := h.bytes
    rw [← hwire, Framing.stream_cons, ← hframe] at hbytes
    simpa [Pipe.resumeReceiver] using hbytes
  consumed := by simp [Pipe.resumeReceiver, hp, Sock.result, h.consumed, ← hframe]
  head _ _ _ := List.nil_prefix

/-- More of the frame is there, but not all of it: the call goes on. -/
theorem Flow.goOn {p : Sock ε M} {m : M} {l : List M} {bytes more : List UInt8}
    (h : s.Flow F (m :: l) got missing) (hwire : bytes ++ more = s.wire)
    (hframe : got ++ bytes <+: F.frame m) (hp : p.result = []) :
    ({ s with wire := more, consumed := s.consumed ++ bytes }.resumeReceiver p).Flow F (m :: l)
      (got ++ bytes) missing where
  passed := by simp [Pipe.resumeReceiver, hp, h.passed]
  bytes := by
    rw [← h.bytes, ← hwire]
    simp [Pipe.resumeReceiver]
  consumed := by simp [Pipe.resumeReceiver, hp, h.consumed]
  head m' l' hml := by
    rw [List.cons.injEq] at hml
    exact hml.1 ▸ hframe

theorem ReceiverStep.inv [Inhabited M] (hstep : ReceiverStep F s t) (h : s.Inv F) :
    t.Inv F := by
  obtain ⟨later, got, missing, hflow, hsending, hreceiving⟩ := h
  cases hstep with
  | call hidle =>
      obtain rfl := hreceiving.idle hidle
      obtain ⟨size, resume, hget⟩ := get_calls F
      exact ⟨later, [], missing, hflow.resumeReceiver (by rw [hget]; rfl), hsending,
        .after (fun m _ => F.get_accepts m) ⟨size, resume, hget⟩⟩
  | @recv size resume c hcalling hne hwire =>
      have haccepts := (hreceiving.calling _ hcalling).2
      obtain ⟨m, l, rfl, hgot⟩ := hflow.recv haccepts hne hwire
      obtain ⟨more, hmore⟩ := hwire
      rw [← hmore, List.drop_left]
      rcases (accepts_chunk haccepts hne hgot).cases_ret with ⟨hret, hrest⟩ | ⟨hcall, _⟩
      · have hframe : got ++ c.bytes = F.frame m :=
          hgot.eq_of_length_le (List.drop_eq_nil_iff.1 hrest)
        refine ⟨l, [], missing, hflow.complete hmore hframe hret, hsending, ?_⟩
        rw [hret]
        exact ⟨fun _ => rfl, fun _ h => by cases h⟩
      · have hresult : (resume (some c)).result = [] := by
          obtain ⟨_, _, hcall⟩ := hcall
          rw [hcall]
          rfl
        exact ⟨m :: l, got ++ c.bytes, missing, hflow.goOn hmore hgot hresult, hsending,
          .after (fun _ hm => accepts_chunk haccepts hne hm) hcall⟩
  | eof hcalling _ _ =>
      have hthrow := (hreceiving.throws hflow hcalling).1
      exact ⟨later, got, missing, hflow.resumeReceiver (result_of_throw hthrow), hsending,
        .of_throw hthrow⟩
  | fail hcalling =>
      have hthrow := (hreceiving.throws hflow hcalling).2
      exact ⟨later, got, missing, hflow.resumeReceiver (result_of_throw hthrow), hsending,
        .of_throw hthrow⟩

/-! ### All runs -/

theorem Step.inv [Inhabited M] (hstep : Step F s t) (h : s.Inv F) : t.Inv F := by
  cases hstep with
  | sender hstep => exact hstep.inv h
  | receiver hstep => exact hstep.inv h
  | fails n =>
      obtain ⟨later, got, missing, hflow, hsending, hreceiving⟩ := h
      refine ⟨later, got, s.wire.drop n ++ missing, ⟨hflow.passed, ?_, hflow.consumed,
        hflow.head⟩, hsending.fails, hreceiving⟩
      rw [← hflow.bytes]
      simp only [List.append_assoc, List.append_cancel_left_eq]
      rw [← List.append_assoc, List.take_append_drop]

/-- **The invariant of all interleavings.** -/
theorem Reachable.inv [Inhabited M] (h : Reachable F s) : s.Inv F := by
  induction h with
  | refl =>
      refine ⟨[], [], [], ⟨rfl, rfl, rfl, fun _ _ h => by cases h⟩, ?_, ?_⟩
      · exact ⟨fun _ _ => rfl, fun _ h => by cases h⟩
      · exact ⟨fun _ => rfl, fun _ h => by cases h⟩
  | tail _ hstep ih => exact hstep.inv ih

/-- What has been returned is the beginning of what has been passed. -/
theorem Reachable.returned_prefix [Inhabited M] (h : Reachable F s) :
    s.returned <+: s.passed := by
  obtain ⟨later, got, missing, hflow, _, _⟩ := h.inv
  exact ⟨later, hflow.passed.symm⟩

/-- A message is returned only when all of its frame has been consumed, and what has been
consumed is the beginning of what has been passed. -/
theorem Reachable.consumed_prefix [Inhabited M] (h : Reachable F s) :
    F.stream s.returned <+: s.consumed ∧ s.consumed ++ s.wire <+: F.stream s.passed := by
  obtain ⟨later, got, missing, hflow, _, _⟩ := h.inv
  constructor
  · exact ⟨got, hflow.consumed.symm⟩
  · refine ⟨missing, ?_⟩
    rw [hflow.consumed, hflow.passed, Framing.stream_append, ← hflow.bytes]
    simp

/-- Without an exception and without a failure, nothing is lost. -/
theorem Reachable.returned_eq [Inhabited M] (h : Reachable F s) (hsender : s.sender = .idle)
    (hdown : s.down = false) (hreceiver : ∀ e, s.receiver ≠ .thrown e) (hwire : s.wire = []) :
    s.returned = s.passed := by
  obtain ⟨later, got, missing, hflow, hsending, hreceiving⟩ := h.inv
  have hbytes := hflow.bytes
  rw [hsending.idle hsender hdown, hwire, List.append_nil, List.append_nil] at hbytes
  suffices hgot : got = [] by
    rw [hgot] at hbytes
    rw [hflow.passed, Framing.stream_eq_nil hbytes.symm, List.append_nil]
  cases hr : s.receiver with
  | idle => exact hreceiving.idle hr
  | thrown e => exact absurd hr (hreceiver e)
  | calling p =>
      cases hl : later with
      | nil => rw [hbytes, hl, Framing.stream_nil]
      | cons m l =>
          -- a call holds a proper part of a frame
          obtain ⟨⟨size, resume, rfl⟩, haccepts⟩ := hreceiving.calling p hr
          have hhead := hflow.head m l hl
          rcases (haccepts m hhead).cases_ret with ⟨hret, _⟩ | ⟨_, hrest⟩
          · cases hret
          · have hlt : got.length < (F.frame m).length :=
              Nat.lt_of_not_le fun hle => hrest (List.drop_eq_nil_iff.2 hle)
            rw [hbytes, hl, Framing.stream_cons, List.length_append] at hlt
            omega

/-! ### The end of a call -/

/-- Whatever the steps are, after finitely many of them `P` holds. -/
inductive Inevitable {σ : Type} (R : σ → σ → Prop) (P : σ → Prop) : σ → Prop
  | now {s : σ} : P s → Inevitable R P s
  | later {s : σ} : (∃ t, R s t) → (∀ t, R s t → Inevitable R P t) → Inevitable R P s

/-- A call ends with an exception, or with a message of which the whole frame has arrived. -/
def Ended (F : Framing ε M) (s t : Pipe ε M) : Prop :=
  (∃ e, t.receiver = .thrown e) ∨ ∃ m, t.returned = s.returned ++ [m] ∧
    s.returned ++ [m] <+: s.passed ∧ F.stream (s.returned ++ [m]) <+: s.consumed ++ s.wire

/-- An answer to a call takes what it delivers from the wire, and ends the call or not. -/
theorem ReceiverStep.cases_calling [Inhabited M] (hstep : ReceiverStep F s t)
    (h : Reachable F s) {p : Sock ε M} (hp : s.receiver = .calling p) :
    (∃ e, t.receiver = .thrown e) ∨
      t.passed = s.passed ∧ t.consumed ++ t.wire = s.consumed ++ s.wire ∧
        t.down = s.down ∧ t.wire.length < s.wire.length ∧
        ((∃ m, t.returned = s.returned ++ [m]) ∨
          t.returned = s.returned ∧ ∃ q, t.receiver = .calling q) := by
  obtain ⟨later, got, missing, hflow, _, hreceiving⟩ := h.inv
  cases hstep with
  | call hidle => rw [hp] at hidle; cases hidle
  | @recv size resume c hcalling hne hwire =>
      right
      obtain ⟨more, hmore⟩ := hwire
      have hpos : 0 < c.bytes.length := List.length_pos_iff.2 hne
      refine ⟨rfl, ?_, rfl, ?_, ?_⟩
      · simp [resumeReceiver, ← hmore]
      · simp [resumeReceiver, ← hmore, hpos]
      · have haccepts := (hreceiving.calling _ hcalling).2
        obtain ⟨m, l, rfl, hgot⟩ := hflow.recv haccepts hne ⟨more, hmore⟩
        rcases (accepts_chunk haccepts hne hgot).cases_ret with ⟨hret, _⟩ | ⟨⟨_, _, hcall⟩, _⟩
        · exact .inl ⟨m, by simp [resumeReceiver, hret, Sock.result]⟩
        · exact .inr ⟨by simp [resumeReceiver, hcall, Sock.result], _, by
            simp only [resumeReceiver, hcall]; rfl⟩
  | eof hcalling _ _ =>
      obtain ⟨e, he⟩ := (hreceiving.throws hflow hcalling).1
      exact .inl ⟨e, by simp only [resumeReceiver, he]; rfl⟩
  | fail hcalling =>
      obtain ⟨e, he⟩ := (hreceiving.throws hflow hcalling).2
      exact .inl ⟨e, by simp only [resumeReceiver, he]; rfl⟩

/-- Over a stream that has failed a call is not kept waiting: it gets some of the bytes that
are left, or the end of the stream. -/
theorem Reachable.exists_step [Inhabited M] (h : Reachable F s) (hdown : s.down = true)
    {p : Sock ε M} (hp : s.receiver = .calling p) : ∃ t, ReceiverStep F s t := by
  obtain ⟨later, got, missing, hflow, _, hreceiving⟩ := h.inv
  obtain ⟨⟨size, resume, rfl⟩, haccepts⟩ := hreceiving.calling p hp
  cases hwire : s.wire with
  | nil => exact ⟨_, .eof hp hwire hdown⟩
  | cons b more =>
      obtain ⟨m, hm⟩ := hflow.exists_head
      cases haccepts m hm with
      | recv hpos _ _ _ _ =>
          exact ⟨_, .recv ⟨[b], hpos⟩ hp (List.cons_ne_nil b []) ⟨more, hwire.symm⟩⟩

/-- **The receiving call ends.** Over a stream that has failed it ends with the next message,
and only if all of it has arrived, and with an exception otherwise. -/
theorem Reachable.call_ends [Inhabited M] (h : Reachable F s) (hdown : s.down = true)
    {p : Sock ε M} (hp : s.receiver = .calling p) :
    Inevitable (ReceiverStep F) (Ended F s) s := by
  suffices key : ∀ n t q, t.wire.length = n → Reachable F t → t.down = true →
      t.receiver = .calling q → t.returned = s.returned → t.passed = s.passed →
      t.consumed ++ t.wire = s.consumed ++ s.wire →
      Inevitable (ReceiverStep F) (Ended F s) t from
    key _ s p rfl h hdown hp rfl rfl rfl
  intro n
  induction n using Nat.strongRecOn with
  | ind n ih =>
      intro t q hn ht htdown hq hreturned hpassed harrived
      refine .later (ht.exists_step htdown hq) fun u hstep => ?_
      have hu : Reachable F u := ht.tail (.receiver hstep)
      rcases hstep.cases_calling ht hq with hthrown | ⟨hp', ha', hdown', hlt, hend⟩
      · exact .now (.inl hthrown)
      · rw [hpassed] at hp'
        rw [harrived] at ha'
        rw [hreturned] at hend
        rcases hend with ⟨m, hm⟩ | ⟨hsame, q', hq'⟩
        · refine .now (.inr ⟨m, hm, ?_, ?_⟩)
          · rw [← hm, ← hp']
            exact hu.returned_prefix
          · rw [← hm, ← ha']
            exact hu.consumed_prefix.1.trans (List.prefix_append _ _)
        · exact ih _ (hn ▸ hlt) u q' rfl hu (hdown'.trans htdown) hq' hsame hp' ha'

end Pipe

end Imp

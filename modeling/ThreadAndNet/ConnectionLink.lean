import ThreadAndNet.ClientLife
import ThreadAndNet.ConnectionInput
import ThreadAndNet.ConnectionSenders
import ThreadAndNet.ServerLife

/-!
# Two connections at the ends of one TCP stream

Each end leads its own life, with its user code, its threads and its closing; the kernel
carries what one has written to the other. What user code is given at one end is what user
code has sent at the other, message by message.
-/

namespace ZDQ

open Machine

namespace TcpConnection

open Conversation

variable {c d : TcpConnection} {calls : List Call}

/-! ## What a member function sends -/

/-- The message that a call of user code has accepted. -/
def UserCall.tells (c : TcpConnection) : UserCall → List (List UInt8)
  | .send message _ => if c.state = .kConnected then [message] else []
  | .shutdown _ | .forceClose | .retrieve _ => []

/-- What the calls of one callback have accepted, in order. -/
def tellsAll (c : TcpConnection) : List UserCall → List (List UInt8)
  | [] => []
  | u :: rest =>
    u.tells c ++
      match c.userCall true u with
      | .ok (d, _) => d.tellsAll rest
      | .error _ => []

/-- What the message callback of an event has accepted. -/
def callbackTells (c : TcpConnection) (revents : BitVec 32) (input : EventInput) :
    List (List UInt8) :=
  if .handleRead ∈ c.callbacks.handleEvent revents then
    match c.inputBuf.readFd input.read with
    | .ok (n, inputBuf) =>
      if 0 < n then { c with inputBuf := inputBuf }.tellsAll input.onMessage else []
    | .error _ => []
  else []

/-- The messages `sendInLoop` runs with, and whether the loop's thread sent them. -/
def ConnOp.tells (c : TcpConnection) : ConnOp → List (Bool × List UInt8)
  | .functor (.sendInLoop message) _ _ => [(false, message)]
  | .functor _ _ _ => []
  | .user inLoop u => if inLoop then (u.tells c).map (Prod.mk true) else []
  | .event revents input => (c.callbackTells revents input).map (Prod.mk true)

/-- The messages that are accepted but left to a functor. -/
def ConnOp.defers (c : TcpConnection) : ConnOp → List (List UInt8)
  | .user inLoop u => if inLoop then [] else u.tells c
  | _ => []

/-- What `::write` takes. -/
def ConnOp.writes (c : TcpConnection) (op : ConnOp) : List UInt8 :=
  match op.apply c with
  | .ok (_, calls) => accepted calls
  | .error _ => []

/-- A call that counts no bytes an `int` cannot. -/
def UserCall.Fits : UserCall → Prop
  | .send message _ => message.length < 2 ^ 31
  | .retrieve len => len < 2 ^ 31
  | _ => True

instance : DecidablePred UserCall.Fits
  | .send message _ => inferInstanceAs (Decidable (message.length < 2 ^ 31))
  | .retrieve len => inferInstanceAs (Decidable (len < 2 ^ 31))
  | .shutdown _ | .forceClose => isTrue trivial

theorem UserCall.Fits.short {u : UserCall} (fits : u.Fits) : u.Short := by
  cases u with
  | retrieve len => exact fits
  | _ => trivial

def ConnOp.Fits : ConnOp → Prop
  | .functor (.sendInLoop message) _ _ => message.length < 2 ^ 31
  | .functor _ _ _ => True
  | .user _ u => u.Fits
  | .event _ input => ∀ u ∈ input.onMessage, u.Fits

theorem ConnOp.Fits.short {op : ConnOp} (fits : op.Fits) : op.Short := by
  cases op with
  | functor f w shutdown => trivial
  | user inLoop u => exact UserCall.Fits.short fits
  | event revents input => exact fun u mem => (fits u mem).short

theorem ConnOp.Fits.defers {op : ConnOp} (fits : op.Fits) :
    ∀ message ∈ op.defers c, message.length < 2 ^ 31 := by
  intro message mem
  cases op with
  | functor f w shutdown => cases mem
  | event revents input => cases mem
  | user inLoop u =>
    rw [ConnOp.defers] at mem
    split at mem
    · cases mem
    · cases u with
      | send accepted w =>
        rw [UserCall.tells] at mem
        split at mem
        · cases List.mem_singleton.mp mem
          exact fits
        · cases mem
      | _ => cases mem

/-- What a member function leaves to be written, behind what was there, and what it queues. -/
structure Tells (c d : TcpConnection) (calls : List Call) (now later : List (List UInt8)) :
    Prop where
  bytes : accepted calls ++ d.outputBuf.readable = c.outputBuf.readable ++ now.flatten
  queued : messages (appended calls) = later

theorem Tells.nothing (output : d.outputBuf = c.outputBuf) (silent : accepted calls = [])
    (queued : messages (appended calls) = []) : Tells c d calls [] [] := by
  refine ⟨?_, queued⟩
  rw [silent, output, List.nil_append, List.flatten_nil, List.append_nil]

theorem Tells.trans {e : TcpConnection} {more : List Call} {now now' later later' :
    List (List UInt8)} (h : Tells c d calls now later) (h' : Tells d e more now' later') :
    Tells c e (calls ++ more) (now ++ now') (later ++ later') := by
  constructor
  · rw [accepted_append, List.append_assoc, h'.bytes, ← List.append_assoc, h.bytes,
      List.append_assoc, List.flatten_append]
  · rw [appended_append, messages_append, h.queued, h'.queued]

theorem keepUnsent_tells {message : List UInt8} {k : Nat}
    (short : (message.drop k).length < 2 ^ 31) (h : c.keepUnsent message k = .ok (d, calls)) :
    Tells c d calls [message.drop k] [] := by
  obtain ⟨d', calls', made, bytes, _, silent, _⟩ := c.keepUnsent_spec k short
  cases h.symm.trans made
  refine ⟨?_, (keepUnsent_quiet h).appended.sendless.messages⟩
  rw [silent, bytes, List.nil_append, List.flatten_singleton]

/-- Whether it writes at once or not, and whatever the channel watches. -/
theorem sendInLoop_tells {message : List UInt8} {w : WriteResult}
    (short : message.length < 2 ^ 31) (h : c.sendInLoop message w = .ok (d, calls)) :
    Tells c d calls [message] [] := by
  rcases sendInLoop_cases h with ⟨_, empty, _, more, kept, rfl⟩ | ⟨_, kept⟩
  · have rest : (message.drop (w.returned message).toNat).length < 2 ^ 31 := by
      rw [List.length_drop]
      omega
    obtain ⟨bytes, queued⟩ := keepUnsent_tells rest kept
    have none := (Buffer.readBuffSize_eq_zero_iff _).mp empty
    refine ⟨?_, queued⟩
    rw [none, List.flatten_singleton, List.nil_append] at bytes ⊢
    rw [accepted, List.append_assoc, bytes, List.take_append_drop]
  · exact keepUnsent_tells (message.drop_zero.symm ▸ short) kept

/-- On the loop's thread a message is sent at once, on any other it is queued. -/
theorem send_tells {inLoop : Bool} {message : List UInt8} {w : WriteResult}
    (short : message.length < 2 ^ 31) (h : c.send inLoop message w = .ok (d, calls)) :
    Tells c d calls (if inLoop then (UserCall.send message w).tells c else [])
      (if inLoop then [] else (UserCall.send message w).tells c) := by
  rw [send] at h
  rw [UserCall.tells]
  split at h
  · rename_i connected
    rw [if_pos connected]
    cases inLoop with
    | true => exact sendInLoop_tells short h
    | false =>
      cases h
      exact ⟨by rw [if_neg Bool.false_ne_true, List.flatten_nil, List.append_nil]; rfl, rfl⟩
  · rename_i refused
    cases h
    rw [if_neg refused, ite_self]
    exact .nothing rfl rfl rfl

theorem userCall_tells {inLoop : Bool} {u : UserCall} (fits : u.Fits)
    (h : c.userCall inLoop u = .ok (d, calls)) :
    Tells c d calls (if inLoop then u.tells c else []) (if inLoop then [] else u.tells c) := by
  cases u with
  | send message w => exact send_tells fits h
  | shutdown result =>
    obtain ⟨_, output, quiet⟩ := shutdown_quiet h
    rw [UserCall.tells, ite_self]
    exact .nothing output (accepted_of_shutdown quiet) (Senders.messages_shutdown quiet)
  | forceClose =>
    rw [UserCall.tells, ite_self]
    simp only [userCall, forceClose] at h
    split at h
    · cases h
      exact .nothing rfl rfl rfl
    · cases h
      exact .nothing rfl rfl rfl
  | retrieve len =>
    rw [UserCall.tells, ite_self]
    simp only [userCall] at h
    split at h
    · cases h
    · cases h
      exact .nothing rfl rfl rfl

theorem userCalls_tells {us : List UserCall} (fits : ∀ u ∈ us, u.Fits)
    (h : c.userCalls us = .ok (d, calls)) : Tells c d calls (c.tellsAll us) [] := by
  induction us generalizing c calls with
  | nil =>
    cases h
    exact .nothing rfl rfl rfl
  | cons u rest ih =>
    obtain ⟨m, first, second, hm, hd, rfl⟩ := andThen_cases h
    have own : Tells c m first (u.tells c) [] := userCall_tells (fits u List.mem_cons_self) hm
    rw [tellsAll, hm]
    exact own.trans (ih (fun v mem => fits v (List.mem_cons_of_mem u mem)) hd)

/-- Only the message callback sends in an event. -/
theorem event_tells (wired : c.Wired) {revents : BitVec 32} {input : EventInput}
    (fits : ∀ u ∈ input.onMessage, u.Fits) (h : c.handleEvent revents input = .ok (d, calls)) :
    Tells c d calls (c.callbackTells revents input) [] := by
  rw [wired.handleEvent_eq] at h
  rw [callbackTells]
  split at h
  · rename_i reads
    rw [if_pos ((wired.reads revents).mpr reads)]
    rw [handleRead] at h
    split at h
    · cases h
    · rename_i n inputBuf read
      rw [read]
      dsimp only at h ⊢
      split at h
      · rename_i some
        rw [if_pos some]
        obtain ⟨m, first, more, hm, hd, rfl⟩ := andThen_cases h
        cases hm
        have told : Tells c { c with inputBuf := inputBuf } [.messageCallback] [] [] :=
          .nothing rfl rfl rfl
        exact told.trans (userCalls_tells fits hd)
      · rename_i none
        rw [if_neg none]
        split at h
        · cases h
          exact .nothing rfl rfl rfl
        · cases h
          exact .nothing rfl rfl rfl
  · rename_i still
    rw [if_neg ((wired.reads revents).not.mpr still)]
    cases h
    exact .nothing rfl rfl rfl

theorem runFunctor_tells {f : ConnFunctor} {w : WriteResult} {shutdown : Status}
    (fits : (ConnOp.functor f w shutdown).Fits) (h : c.runFunctor w shutdown f = .ok (d, calls)) :
    Tells c d calls (((ConnOp.functor f w shutdown).tells c).map Prod.snd) [] := by
  cases f with
  | sendInLoop message => exact sendInLoop_tells fits h
  | shutdownInLoop =>
    obtain ⟨same, quiet⟩ := shutdownInLoop_quiet h
    exact .nothing (by rw [same]) (accepted_of_shutdown quiet) (Senders.messages_shutdown quiet)
  | writeCompleteCallback =>
    cases h
    exact .nothing rfl rfl rfl
  | connectEstablished =>
    simp only [runFunctor, connectEstablished] at h
    split at h
    · cases h
      exact .nothing rfl rfl rfl
    · cases h
  | connectDestroyed =>
    simp only [runFunctor, connectDestroyed] at h
    split at h
    · cases h
      exact .nothing rfl rfl rfl
    · cases h
      exact .nothing rfl rfl rfl
  | forceCloseInLoop =>
    simp only [runFunctor, forceCloseInLoop] at h
    split at h
    · cases h
      exact .nothing rfl rfl rfl
    · cases h
      exact .nothing rfl rfl rfl

theorem ConnOp.apply_tells (wired : c.Wired) {op : ConnOp} (fits : op.Fits)
    (h : op.apply c = .ok (d, calls)) :
    Tells c d calls ((op.tells c).map Prod.snd) (op.defers c) := by
  have untagged : ∀ ms : List (List UInt8), (ms.map (Prod.mk true)).map Prod.snd = ms := by
    intro ms
    rw [List.map_map]
    exact List.map_id ms
  cases op with
  | functor f w shutdown => exact runFunctor_tells fits h
  | user inLoop u =>
    have said := userCall_tells fits h
    cases inLoop with
    | true =>
      rw [ConnOp.tells, if_pos rfl, untagged]
      exact said
    | false => exact said
  | event revents input =>
    rw [ConnOp.tells, untagged]
    exact event_tells wired fits h

end TcpConnection

namespace Life

open TcpConnection

variable {base own : Nat} {thread : Option Nat} {v w : Life}

/-! ## What a life does with its queue -/

/-- The member function that a step runs. -/
def Op.member (own : Nat) (v : Life) : Op → Option ConnOp
  | .functor w shutdown => v.queue.head?.map fun f => .functor f w shutdown
  | .event revents input => some (.event revents input)
  | .user thread u => some (.user (thread == some own) u)
  | .poll => none
  | .remove => none

/-- The functors that are still queued when it runs. -/
def Op.leaves (v : Life) : Op → List ConnFunctor
  | .functor _ _ => v.queue.tail
  | _ => v.queue

theorem perform_messages {call : Call} (h : perform base own thread v call = .ok w) :
    messages w.queue = messages v.queue ++ messages (appended [call]) := by
  simp only [perform] at h
  split at h
  · cases h
  split at h
  · cases h
    exact messages_append _ _
  · cases h
    split
    · rw [remove, messages_append]
      rfl
    · exact (List.append_nil _).symm
  · rename_i other _
    cases h
    have none : appended [call] = [] := by
      cases call with
      | append f => exact absurd rfl (other f)
      | _ => rfl
    rw [none]
    exact (List.append_nil _).symm

theorem act_messages {o : Outcome} (h : act base own thread v o = .ok w) :
    ∃ calls, o = .ok (w.track.conn, calls) ∧
      messages w.queue = messages v.queue ++ messages (appended calls) := by
  obtain ⟨calls, result⟩ := act_conn h
  obtain ⟨conn, calls', made, ran⟩ := act_cases h
  cases result.symm.trans made
  refine ⟨calls, result, ?_⟩
  have along : ∀ (calls : List Call) (x y : Life),
      run (perform base own thread) x calls = .ok y →
      messages y.queue = messages x.queue ++ messages (appended calls) := by
    intro calls
    induction calls with
    | nil =>
      intro x y ran
      cases ran
      exact (List.append_nil _).symm
    | cons call rest ih =>
      intro x y ran
      obtain ⟨m, first, later⟩ := run_cons_inv ran
      rw [ih m y later, perform_messages first, List.append_assoc, ← messages_append,
        ← appended_append]
      rfl
  have whole := along calls _ _ ran
  exact whole

/-- A step runs one member function at most, and queues what it appends. -/
theorem step_member {op : Op} (h : step base own v op = .ok w) :
    (op.member own v = none ∧ w.track.conn = v.track.conn ∧
      messages w.queue = messages v.queue) ∨
    ∃ o calls, op.member own v = some o ∧ o.apply v.track.conn = .ok (w.track.conn, calls) ∧
      messages w.queue = messages (op.leaves v) ++ messages (appended calls) := by
  cases op with
  | functor r shutdown =>
    simp only [step] at h
    split at h
    · cases h
    rename_i f rest queue
    split at h
    · cases h
    obtain ⟨calls, ran, queued⟩ := act_messages h
    refine .inr ⟨.functor f r shutdown, calls, ?_, ran, ?_⟩
    · rw [Op.member, queue]
      rfl
    · rw [Op.leaves, queue]
      exact queued
  | event revents input =>
    simp only [step] at h
    split at h
    · obtain ⟨calls, ran, queued⟩ := act_messages h
      exact .inr ⟨.event revents input, calls, rfl, ran, queued⟩
    · cases h
  | user thread u =>
    obtain ⟨calls, ran, queued⟩ := act_messages h
    exact .inr ⟨.user (thread == some own) u, calls, rfl, ran, queued⟩
  | poll =>
    simp only [step] at h
    split at h
    · cases h
      exact .inl ⟨rfl, rfl, rfl⟩
    · cases h
  | remove =>
    simp only [step] at h
    split at h
    · cases h
    · cases h
      refine .inl ⟨rfl, rfl, ?_⟩
      rw [Life.remove, messages_append]
      exact List.append_nil _

theorem sentBy_false (ms : List (List UInt8)) :
    Conversation.sentBy false (ms.map (Prod.mk true)) = [] := by
  induction ms with
  | nil => rfl
  | cons message rest ih => exact ih

/-- A functor runs with the first message that is queued. -/
theorem member_messages {op : Op} {o : ConnOp} (member : op.member own v = some o) :
    messages v.queue =
      Conversation.sentBy false (o.tells v.track.conn) ++ messages (op.leaves v) := by
  cases op with
  | functor r shutdown =>
    obtain ⟨f, front, rfl⟩ := Option.map_eq_some_iff.mp member
    obtain ⟨rest, queue⟩ := List.head?_eq_some_iff.mp front
    rw [Op.leaves, queue]
    cases f <;> rfl
  | event revents input =>
    cases member
    rw [ConnOp.tells, sentBy_false]
    rfl
  | user thread u =>
    cases member
    rw [ConnOp.tells]
    split
    · rw [sentBy_false]
      rfl
    · rfl
  | poll => cases member
  | remove => cases member

/-- User code counts no bytes an `int` cannot. -/
def Op.Fits : Op → Prop
  | .event _ input => ∀ u ∈ input.onMessage, u.Fits
  | .user _ u => u.Fits
  | _ => True

instance : DecidablePred Op.Fits
  | .event _ input => inferInstanceAs (Decidable (∀ u ∈ input.onMessage, u.Fits))
  | .user _ u => inferInstanceAs (Decidable u.Fits)
  | .functor _ _ | .poll | .remove => isTrue trivial

theorem member_fits {op : Op} (fits : op.Fits)
    (queued : ∀ message ∈ messages v.queue, message.length < 2 ^ 31) {o : ConnOp}
    (member : op.member own v = some o) : o.Fits := by
  cases op with
  | functor r shutdown =>
    obtain ⟨f, front, rfl⟩ := Option.map_eq_some_iff.mp member
    obtain ⟨rest, queue⟩ := List.head?_eq_some_iff.mp front
    cases f with
    | sendInLoop message => exact queued message (by rw [queue]; exact List.mem_cons_self)
    | _ => trivial
  | event revents input =>
    cases member
    exact fits
  | user thread u =>
    cases member
    exact fits
  | poll => cases member
  | remove => cases member

end Life

/-! ## One end -/

/-- A connection with the bytes it has moved and the messages it has accepted. -/
structure Endpoint where
  /-- the loop of its owner, and its own -/
  base : Nat
  own : Nat
  life : Life
  /-- what `::write` has taken -/
  written : List UInt8
  /-- what `readv` has delivered -/
  read : List UInt8
  /-- what user code has been given -/
  given : List UInt8
  /-- the messages sent on its own thread -/
  direct : List (List UInt8)
  /-- the messages sent on others, in the order of the calls -/
  others : List (List UInt8)

namespace Endpoint

open TcpConnection Conversation

def new (base own sockfd : Nat) (writeCompleteCallback : Bool) : Endpoint :=
  ⟨base, own, .start sockfd writeCompleteCallback, [], [], [], [], []⟩

/-- Book what a member function does. -/
def book (e : Endpoint) (o : ConnOp) : Endpoint :=
  let c := e.life.track.conn
  { e with
    written := e.written ++ o.writes c
    read := e.read ++ o.delivers c
    given := e.given ++ o.takes c
    direct := e.direct ++ sentBy true (o.tells c)
    others := e.others ++ o.defers c }

def step (e : Endpoint) (op : Life.Op) : Except Failure Endpoint :=
  (e.life.step e.base e.own op).map fun life =>
    { (op.member e.own e.life).elim e e.book with life := life }

variable {e f : Endpoint}

theorem step_loops {op : Life.Op} (h : e.step op = .ok f) : f.base = e.base ∧ f.own = e.own := by
  obtain ⟨w, made, rfl⟩ := map_cases h
  cases op.member e.own e.life with
  | none => exact ⟨rfl, rfl⟩
  | some o => exact ⟨rfl, rfl⟩

/-- The books never keep a connection from a step: whatever a life comes to, an end does. -/
theorem run_life {ops : List Life.Op} {w : Life} :
    run (Life.step e.base e.own) e.life ops = .ok w ↔
      ∃ f, run step e ops = .ok f ∧ f.life = w := by
  induction ops generalizing e with
  | nil =>
    constructor
    · intro none
      cases none
      exact ⟨e, rfl, rfl⟩
    · rintro ⟨f, none, rfl⟩
      cases none
      rfl
  | cons op rest ih =>
    constructor
    · intro ran
      obtain ⟨v, made, later⟩ := run_cons_inv ran
      obtain ⟨m, booked, rfl⟩ : ∃ m, e.step op = .ok m ∧ m.life = v :=
        ⟨_, by rw [step, made]; rfl, rfl⟩
      obtain ⟨base, own⟩ := step_loops booked
      rw [← base, ← own] at later
      obtain ⟨f, ended, same⟩ := ih.mp later
      exact ⟨f, (run_cons_ok booked rest).trans ended, same⟩
    · rintro ⟨f, ran, same⟩
      obtain ⟨m, booked, later⟩ := run_cons_inv ran
      obtain ⟨base, own⟩ := step_loops booked
      have ended := ih.mpr ⟨f, later, same⟩
      rw [base, own] at ended
      obtain ⟨v, made, rfl⟩ := map_cases booked
      exact (run_cons_ok made rest).trans ended

/-- What has been written or waits for it is made of whole messages, and what has been read
is given to user code in order. -/
structure Inv (e : Endpoint) (ran : List (Bool × List UInt8)) : Prop where
  wired : e.life.track.conn.Wired
  bytes : e.written ++ e.life.track.conn.outputBuf.readable = (ran.map Prod.snd).flatten
  direct : sentBy true ran = e.direct
  others : sentBy false ran ++ messages e.life.queue = e.others
  short : ∀ message ∈ e.others, message.length < 2 ^ 31
  input : e.given ++ e.life.track.conn.inputBuf.readable = e.read

theorem new_inv (base own sockfd : Nat) (wc : Bool) : Inv (new base own sockfd wc) [] :=
  ⟨rfl, Buffer.readable_new Buffer.defaultSize, rfl, rfl, List.forall_mem_nil _,
    Buffer.readable_new Buffer.defaultSize⟩

theorem Inv.queued {ran : List (Bool × List UInt8)} (inv : Inv e ran) :
    ∀ message ∈ messages e.life.queue, message.length < 2 ^ 31 := by
  intro message mem
  refine inv.short message ?_
  rw [← inv.others]
  exact List.mem_append_right _ mem

theorem Inv.step {ran : List (Bool × List UInt8)} (inv : Inv e ran) {op : Life.Op}
    (fits : op.Fits) (h : e.step op = .ok f) : ∃ more, Inv f (ran ++ more) := by
  obtain ⟨w, made, rfl⟩ := map_cases h
  rcases Life.step_member made with ⟨none, conn, queue⟩ | ⟨o, calls, member, applied, queue⟩
  · refine ⟨[], ?_⟩
    rw [none, List.append_nil]
    refine ⟨?_, ?_, inv.direct, ?_, inv.short, ?_⟩
    · rw [conn]
      exact inv.wired
    · rw [conn]
      exact inv.bytes
    · rw [queue]
      exact inv.others
    · rw [conn]
      exact inv.input
  · have small := Life.member_fits fits inv.queued member
    have tells := o.apply_tells inv.wired small applied
    have takes := o.apply_takes inv.wired small.short applied
    refine ⟨o.tells e.life.track.conn, ?_⟩
    rw [member]
    refine ⟨o.apply_wired inv.wired applied, ?_, ?_, ?_, ?_, ?_⟩
    · show e.written ++ o.writes e.life.track.conn ++ w.track.conn.outputBuf.readable = _
      rw [ConnOp.writes, applied, List.append_assoc, tells.bytes, ← List.append_assoc, inv.bytes,
        List.map_append, List.flatten_append]
    · rw [sentBy_append, inv.direct]
      rfl
    · show _ ++ messages w.queue = e.others ++ o.defers e.life.track.conn
      rw [sentBy_append, queue, tells.queued, ← inv.others, Life.member_messages member]
      simp only [List.append_assoc]
    · intro message mem
      rcases List.mem_append.mp mem with old | new
      · exact inv.short message old
      · exact small.defers message new
    · show e.given ++ o.takes e.life.track.conn ++ w.track.conn.inputBuf.readable =
        e.read ++ o.delivers e.life.track.conn
      rw [List.append_assoc, takes, ← List.append_assoc, inv.input]

end Endpoint

/-- Every connection of a server is such an end, and so is every connection of a client. -/
theorem TcpServer.served_endpoint {name : String} {numThreads : Nat} {wc : Bool} {s : TcpServer}
    (reached : Reaches step (new name numThreads wc) s) {c : Nat} {e : Served}
    (he : s.served c = some e) : ∃ sockfd wc f,
      Reaches Endpoint.step (.new 0 e.loop sockfd wc) f ∧ f.life = s.life c e := by
  obtain ⟨sockfd, wc, ops, lived⟩ := (reached_alive reached).lives c e he
  obtain ⟨f, ran, same⟩ := Endpoint.run_life (e := .new 0 e.loop sockfd wc).mp lived
  exact ⟨sockfd, wc, f, ⟨ops, ran⟩, same⟩

theorem ClientLoop.conns_endpoint {wc : Bool} {s : ClientLoop}
    (reached : Reaches step (new wc) s) {c : Nat} {e : ClientConn} (he : s.conns c = some e) :
    ∃ sockfd wc f, Reaches Endpoint.step (.new 0 0 sockfd wc) f ∧ f.life = s.life c e := by
  obtain ⟨sockfd, wc, ops, lived⟩ := (reached_alive reached).lives c e he
  obtain ⟨f, ran, same⟩ := Endpoint.run_life (e := .new 0 0 sockfd wc).mp lived
  exact ⟨sockfd, wc, f, ⟨ops, ran⟩, same⟩

/-! ## Both ends -/

inductive Side where
  | left
  | right
deriving DecidableEq

def Side.other : Side → Side
  | .left => .right
  | .right => .left

@[simp] theorem Side.other_other (side : Side) : side.other.other = side := by
  cases side <;> rfl

theorem Side.other_ne (side : Side) : side.other ≠ side := by
  cases side <;> decide

structure Link where
  ends : Side → Endpoint
  /-- the bytes that are on their way to this end -/
  wire : Side → List UInt8

/-- `readv` gets the front of what has arrived; the end of the stream or an error may come at
any time. -/
def Buffer.Readv.Arrives (wire : List UInt8) : Buffer.Readv → Prop
  | .failed => True
  | .read bytes => bytes <+: wire

instance (wire : List UInt8) : DecidablePred (Buffer.Readv.Arrives wire)
  | .failed => isTrue trivial
  | .read bytes => inferInstanceAs (Decidable (bytes <+: wire))

def Life.Op.Arrives (wire : List UInt8) : Life.Op → Prop
  | .event _ input => input.read.Arrives wire
  | _ => True

instance (wire : List UInt8) : DecidablePred (Life.Op.Arrives wire)
  | .event _ input => inferInstanceAs (Decidable (input.read.Arrives wire))
  | .functor _ _ | .user _ _ | .poll | .remove => isTrue trivial

namespace Endpoint

/-- What a step reads and what it writes. -/
def reads (e : Endpoint) (op : Life.Op) : List UInt8 :=
  (op.member e.own e.life).elim [] fun o => o.delivers e.life.track.conn

def writes (e : Endpoint) (op : Life.Op) : List UInt8 :=
  (op.member e.own e.life).elim [] fun o => o.writes e.life.track.conn

variable {e f : Endpoint}

theorem step_books {op : Life.Op} (h : e.step op = .ok f) :
    f.read = e.read ++ e.reads op ∧ f.written = e.written ++ e.writes op := by
  obtain ⟨w, made, rfl⟩ := map_cases h
  rw [reads, writes]
  cases member : op.member e.own e.life with
  | none => exact ⟨(List.append_nil _).symm, (List.append_nil _).symm⟩
  | some o => exact ⟨rfl, rfl⟩

/-- No more is read than what has arrived, and its front. -/
theorem reads_arrived {op : Life.Op} {wire : List UInt8} (arrives : op.Arrives wire) :
    e.reads op <+: wire := by
  cases op with
  | event revents input =>
    show e.life.track.conn.delivered revents input.read <+: wire
    have arrives : input.read.Arrives wire := arrives
    unfold TcpConnection.delivered
    split
    · cases read : input.read with
      | failed => exact List.nil_prefix
      | read bytes =>
        rw [read] at arrives
        exact (List.take_prefix _ _).trans arrives
    · exact List.nil_prefix
  | functor r shutdown =>
    rw [reads, Life.Op.member]
    cases e.life.queue.head? with
    | none => exact List.nil_prefix
    | some f => exact List.nil_prefix
  | user thread u => exact List.nil_prefix
  | poll => exact List.nil_prefix
  | remove => exact List.nil_prefix

end Endpoint

namespace Link

open TcpConnection Conversation

def new (base own sockfd : Side → Nat) (writeCompleteCallback : Side → Bool) : Link where
  ends side := .new (base side) (own side) (sockfd side) (writeCompleteCallback side)
  wire _ := []

/-- A step at one end, and what the kernel has moved then. -/
def after (l : Link) (side : Side) (op : Life.Op) (e : Endpoint) : Link where
  ends := Function.update l.ends side e
  wire s :=
    if s = side then (l.wire s).drop ((l.ends side).reads op).length
    else l.wire s ++ (l.ends side).writes op

/-- A step of one end, if what it reads has arrived. -/
def step (l : Link) (a : Side × Life.Op) : Except Failure Link :=
  if a.2.Arrives (l.wire a.1) then ((l.ends a.1).step a.2).map (l.after a.1 a.2)
  else .error .disabled

variable {l m : Link}

theorem step_cases {side : Side} {op : Life.Op} (h : l.step (side, op) = .ok m) :
    ∃ e, op.Arrives (l.wire side) ∧ (l.ends side).step op = .ok e ∧ m = l.after side op e := by
  rw [step] at h
  split at h
  · rename_i arrives
    obtain ⟨e, made, rfl⟩ := map_cases h
    exact ⟨e, arrives, made, rfl⟩
  · cases h

theorem ends_after (l : Link) (side s : Side) (op : Life.Op) (e : Endpoint) :
    (l.after side op e).ends s = if s = side then e else l.ends s :=
  Function.update_apply ..

/-- What has been written at one end has been read at the other or is on its way there. -/
structure Inv (l : Link) : Prop where
  ends : ∀ side, ∃ ran, (l.ends side).Inv ran
  carried : ∀ side, (l.ends side).read ++ l.wire side = (l.ends side.other).written

theorem Inv.step (inv : Inv l) {a : Side × Life.Op} (fits : a.2.Fits) (h : l.step a = .ok m) :
    Inv m := by
  obtain ⟨side, op⟩ := a
  obtain ⟨e, arrives, made, rfl⟩ := step_cases h
  obtain ⟨reads, writes⟩ := Endpoint.step_books made
  obtain ⟨left, front⟩ := Endpoint.reads_arrived (e := l.ends side) arrives
  constructor
  · intro s
    rw [ends_after]
    split
    · obtain ⟨ran, books⟩ := inv.ends side
      obtain ⟨more, kept⟩ := books.step fits made
      exact ⟨_, kept⟩
    · exact inv.ends s
  · intro s
    rw [ends_after, ends_after]
    by_cases here : s = side
    · subst here
      rw [if_pos rfl, if_neg s.other_ne, after]
      dsimp only
      rw [if_pos rfl, reads, ← inv.carried, ← front, List.drop_left, List.append_assoc]
    · have there : s.other = side := by
        cases s <;> cases side <;> first | rfl | exact absurd rfl here
      rw [if_neg here, if_pos there, after]
      dsimp only
      rw [if_neg here, writes, ← there, ← inv.carried, List.append_assoc]

/-- However two connections of this library are used at the ends of one stream: what user code
at one end has been given, then what its buffer holds, what is on its way and what the other
end has yet to write, is made of whole messages that user code there has sent, none missing but
those still queued: its own thread's in order, and the other threads' in order. -/
theorem messages_delivered {base own sockfd : Side → Nat} {wc : Side → Bool}
    {ops : List (Side × Life.Op)} (fits : ∀ a ∈ ops, a.2.Fits)
    (h : run step (new base own sockfd wc) ops = .ok l) (side : Side) :
    ∃ ran : List (Bool × List UInt8),
      (l.ends side).given ++ (l.ends side).life.track.conn.inputBuf.readable ++ l.wire side ++
        (l.ends side.other).life.track.conn.outputBuf.readable = (ran.map Prod.snd).flatten ∧
      sentBy true ran = (l.ends side.other).direct ∧
      sentBy false ran ++ messages (l.ends side.other).life.queue =
        (l.ends side.other).others := by
  have keep : ∀ (l : Link) (a : Side × Life.Op) (m : Link),
      Inv l → a.2.Fits → l.step a = .ok m → Inv m :=
    fun _ _ _ inv fits made => inv.step fits made
  have start : Inv (new base own sockfd wc) :=
    ⟨fun side => ⟨[], Endpoint.new_inv ..⟩, fun _ => rfl⟩
  have inv := run_keeps keep start (along_of_mem (fun a mem _ => fits a mem) _) h
  obtain ⟨ran, sender⟩ := inv.ends side.other
  obtain ⟨_, receiver⟩ := inv.ends side
  refine ⟨ran, ?_, sender.direct, sender.others⟩
  rw [receiver.input, inv.carried, sender.bytes]

/-- Another thread sends two bytes at the left end and the loop's thread one, which overtakes
them; the right end reads two of the three and answers. -/
def answered : List (Side × Life.Op) :=
  [(.left, .functor (.accepted 0) none), (.right, .functor (.accepted 0) none),
    (.left, .user none (.send [1, 2] (.accepted 0))),
    (.left, .user (some 1) (.send [3] (.accepted 1))), (.left, .functor (.accepted 1) none),
    (.right, .poll),
    (.right,
      .event POLLIN ⟨.read [3, 1], [.retrieve 1, .send [9] (.accepted 1)], .accepted 0, none⟩),
    (.left, .poll), (.left, .event POLLIN ⟨.read [9], [.retrieve 1], .accepted 0, none⟩)]

theorem messages_delivered_answered : ∃ l,
    run step (new (fun _ => 0) (fun _ => 1) (fun _ => 5) (fun _ => false)) answered = .ok l ∧
      (l.ends .right).given = [3] ∧ (l.ends .left).given = [9] ∧
      ∃ ran : List (Bool × List UInt8),
        (l.ends .right).given ++ (l.ends .right).life.track.conn.inputBuf.readable ++
          l.wire .right ++ (l.ends .left).life.track.conn.outputBuf.readable =
            (ran.map Prod.snd).flatten ∧
        sentBy true ran = (l.ends .left).direct ∧
        sentBy false ran ++ messages (l.ends .left).life.queue = (l.ends .left).others := by
  obtain ⟨l, ran, given⟩ := ok_of_any
    (o := run step (new (fun _ => 0) (fun _ => 1) (fun _ => 5) (fun _ => false)) answered)
    (p := fun l => (l.ends .right).given == [3] && (l.ends .left).given == [9])
    (by decide +kernel)
  rw [Bool.and_eq_true, beq_iff_eq, beq_iff_eq] at given
  exact ⟨l, ran, given.1, given.2, messages_delivered (by decide) ran .right⟩

end Link

end ZDQ

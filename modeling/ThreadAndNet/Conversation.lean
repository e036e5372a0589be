import ThreadAndNet.ConnectionFrame
import ThreadAndNet.ConnectionOutput
import ThreadAndNet.EventLoop

/-!
# A connection, its loop, and the threads that use it

`send` and `shutdown` act at once on the loop's thread and are queued from any
other. Every message `send` accepted is still queued, pending in the buffer or
taken by `::write`, and write interest is on exactly while something is pending.
-/

namespace ZDQ

open Machine

/-- The functors a trace of calls puts on the loop. -/
def appended : List Call → List ConnFunctor
  | [] => []
  | .append f :: rest => f :: appended rest
  | _ :: rest => appended rest

@[simp] theorem appended_append (first second : List Call) :
    appended (first ++ second) = appended first ++ appended second := by
  induction first with
  | nil => rfl
  | cons call rest ih => cases call <;> simp [appended, ih]

/-- The messages of the queued calls of `sendInLoop`. -/
def messages : List ConnFunctor → List (List UInt8)
  | [] => []
  | .sendInLoop message :: rest => message :: messages rest
  | _ :: rest => messages rest

@[simp] theorem messages_append (first second : List ConnFunctor) :
    messages (first ++ second) = messages first ++ messages second := by
  induction first with
  | nil => rfl
  | cons f rest ih => cases f <;> simp [messages, ih]

/-- No call of `sendInLoop` is queued. -/
def Sendless (fs : List ConnFunctor) : Prop := ∀ message, .sendInLoop message ∉ fs

theorem Sendless.messages {fs : List ConnFunctor} (h : Sendless fs) : messages fs = [] := by
  induction fs with
  | nil => rfl
  | cons f rest ih =>
    have tail : Sendless rest := fun m hm => h m (List.mem_cons_of_mem f hm)
    cases f with
    | sendInLoop message => exact absurd List.mem_cons_self (h message)
    | _ => exact ih tail

/-- Nothing but the user's `writeCompleteCallback_` is queued. -/
def OnlyCallbacks (fs : List ConnFunctor) : Prop := ∀ f ∈ fs, f = .writeCompleteCallback

theorem OnlyCallbacks.sendless {fs : List ConnFunctor} (h : OnlyCallbacks fs) :
    Sendless fs := by
  intro message mem
  cases h _ mem

theorem OnlyCallbacks.noRequest {fs : List ConnFunctor} (h : OnlyCallbacks fs) :
    .shutdownInLoop ∉ fs := by
  intro mem
  cases h _ mem

/-- The calls that neither touch the socket nor ask for more output. -/
def Call.IsQuiet : Call → Prop
  | .update _ => True
  | .append f => f = .writeCompleteCallback
  | _ => False

/-- A trace without `::write` and `::shutdown` that queues callbacks only. -/
def Quiet (calls : List Call) : Prop := ∀ call ∈ calls, call.IsQuiet

namespace Quiet

variable {calls : List Call}

theorem noShutdown (h : Quiet calls) : .shutdownWrite ∉ calls := fun mem => h _ mem

theorem accepted (h : Quiet calls) : TcpConnection.accepted calls = [] := by
  induction calls with
  | nil => rfl
  | cons call rest ih =>
    have tail := ih (fun c hc => h c (List.mem_cons_of_mem call hc))
    have head := h call List.mem_cons_self
    cases call with
    | write offered n => exact absurd head id
    | _ => exact tail

theorem appended (h : Quiet calls) : OnlyCallbacks (appended calls) := by
  induction calls with
  | nil => simp [ZDQ.appended, OnlyCallbacks]
  | cons call rest ih =>
    have tail := ih (fun c hc => h c (List.mem_cons_of_mem call hc))
    have head := h call List.mem_cons_self
    cases call with
    | append f =>
      intro g hg
      rcases List.mem_cons.mp hg with rfl | hg
      · exact head
      · exact tail g hg
    | _ => exact tail

end Quiet

namespace TcpConnection

theorem writeComplete_quiet (c : TcpConnection) : Quiet c.writeComplete := by
  intro call hcall
  rw [eq_of_mem_writeComplete hcall]
  rfl

theorem keepUnsent_quiet {c d : TcpConnection} {message : List UInt8} {k : Nat}
    {calls : List Call} (h : c.keepUnsent message k = .ok (d, calls)) : Quiet calls := by
  rcases keepUnsent_cases h with ⟨len, out, _, ⟨_, rfl⟩ | ⟨_, rfl⟩⟩ | ⟨_, rfl⟩
  · simp [Quiet]
  · simp [Quiet, Call.IsQuiet]
  · exact writeComplete_quiet c

/-- What running `sendInLoop` does, in the terms of this module. -/
structure Sends (c d : TcpConnection) (message : List UInt8) (calls : List Call) : Prop where
  bytes : accepted calls ++ d.outputBuf.readable = c.outputBuf.readable ++ message
  pending : d.PendingIffWriteing
  state : d.state = c.state
  noShutdown : .shutdownWrite ∉ calls
  appended : OnlyCallbacks (appended calls)
  writeing : c.channel.isWriteing = true → d.channel.isWriteing = true

theorem sends_of_sendInLoop {c d : TcpConnection} (inv : c.PendingIffWriteing)
    {message : List UInt8} {w : WriteResult} (fits : c.TailFits message w)
    {calls : List Call} (h : c.sendInLoop message w = .ok (d, calls)) :
    Sends c d message calls := by
  rcases sendInLoop_spec inv fits with ⟨d', calls', hd, bytes, pending, state⟩ | ⟨_, _, hexit⟩
  · rw [h] at hd
    cases hd
    rcases sendInLoop_cases h with ⟨idle, _, _, more, hkeep, rfl⟩ | ⟨buffered, hkeep⟩
    · have quiet := keepUnsent_quiet hkeep
      refine ⟨bytes, pending, state, ?_, ?_, fun on => ?_⟩
      · simp [quiet.noShutdown]
      · exact quiet.appended
      · rw [idle] at on
        cases on
    · have quiet := keepUnsent_quiet hkeep
      refine ⟨bytes, pending, state, quiet.noShutdown, quiet.appended, fun on => ?_⟩
      rw [TailFits, if_neg buffered] at fits
      obtain ⟨e, more, he, _, writeing, _⟩ := c.keepUnsent_spec 0 fits
      rw [hkeep] at he
      cases he
      exact writeing.mpr (Or.inl on)
  · rw [h] at hexit
    cases hexit

/-- What handling a write event does, in the terms of this module. -/
inductive Drains (c d : TcpConnection) (n : Int) (calls : List Call) : Prop where
  | idle : d = c → calls = [] → Drains c d n calls
  | partly : d.channel.isWriteing = true → c.channel.isWriteing = true →
      calls = [.write c.outputBuf.readable n] → Drains c d n calls
  | wholly (quiet : List Call) : d.channel.isWriteing = false →
      c.channel.isWriteing = true → n = c.outputBuf.readable.length → Quiet quiet →
      calls = .write c.outputBuf.readable n :: (quiet ++
        if c.state = .kDisconnecting then [.shutdownWrite] else []) → Drains c d n calls

theorem drained_cases {c d : TcpConnection} {result : Status} {calls : List Call}
    (h : c.drained result = .ok (d, calls)) :
    d.channel.isWriteing = false ∧ ∃ quiet, Quiet quiet ∧
      calls = quiet ++ if c.state = .kDisconnecting then [.shutdownWrite] else [] := by
  rw [drained] at h
  obtain ⟨m, first, second, hm, hd, rfl⟩ := andThen_cases h
  cases hm
  have quiet : Quiet (.update c.channel.disableWriteing :: c.writeComplete) := by
    intro call hcall
    rcases List.mem_cons.mp hcall with rfl | hcall
    · trivial
    · exact c.writeComplete_quiet call hcall
  have off := Channel.isWriteing_disableWriteing c.channel
  by_cases closing : c.state = .kDisconnecting
  · rw [if_pos closing] at hd ⊢
    obtain ⟨rfl, ⟨on, _⟩ | ⟨_, rfl⟩⟩ := shutdownInLoop_cases hd
    · rw [off] at on
      cases on
    · exact ⟨off, _, quiet, rfl⟩
  · rw [if_neg closing] at hd ⊢
    cases hd
    exact ⟨off, _, quiet, rfl⟩

/-- The output buffer runs empty only if everything in it was taken. -/
theorem drained_all {c : TcpConnection} {w : WriteResult} {out : Buffer}
    (positive : 0 < w.returned c.outputBuf.readable)
    (hout : c.outputBuf.retrieve (narrow (w.returned c.outputBuf.readable)) = .ok out)
    (empty : out.readBuffSize = 0) :
    w.returned c.outputBuf.readable = c.outputBuf.readable.length := by
  rcases w.returned_range c.outputBuf.readable with failed | ⟨k, hk, hle, hsmall⟩
  · omega
  · rw [hk] at hout ⊢
    obtain ⟨out', hout', hread⟩ := c.outputBuf.retrieve_spec
      (show k ≤ c.outputBuf.readBuffSize by rwa [← Buffer.length_readable])
    rw [narrow_of_lt (by omega) (by omega), hout'] at hout
    cases hout
    rw [(Buffer.readBuffSize_eq_zero_iff _).mp empty] at hread
    have := List.drop_eq_nil_iff.mp hread.symm
    omega

theorem drains_of_handleWrite {c d : TcpConnection} {w : WriteResult} {result : Status}
    {calls : List Call} (h : c.handleWrite w result = .ok (d, calls)) :
    Drains c d (w.returned c.outputBuf.readable) calls := by
  rw [handleWrite] at h
  split at h
  · rename_i writeing
    obtain ⟨m, first, second, hm, hd, rfl⟩ := andThen_cases h
    cases hm
    split at hd
    · rename_i positive
      split at hd
      · cases hd
      · rename_i out hout
        dsimp only at hd
        split at hd
        · rename_i empty
          obtain ⟨off, quiet, hquiet, rfl⟩ := drained_cases hd
          exact .wholly quiet off writeing (drained_all positive hout empty) hquiet rfl
        · cases hd
          exact .partly writeing writeing rfl
    · cases hd
      exact .partly writeing writeing rfl
  · cases h
    exact .idle rfl rfl

/-- A write event queues callbacks only. -/
theorem Drains.appended {c d : TcpConnection} {n : Int} {calls : List Call}
    (h : Drains c d n calls) : OnlyCallbacks (appended calls) := by
  cases h with
  | idle same none =>
    subst none
    simp [OnlyCallbacks, ZDQ.appended]
  | partly on writeing trace =>
    subst trace
    simp [OnlyCallbacks, ZDQ.appended]
  | wholly quiet off writeing all hquiet trace =>
    have callbacks : OnlyCallbacks (ZDQ.appended quiet) := hquiet.appended
    have shutdown : ZDQ.appended (if c.state = .kDisconnecting then [.shutdownWrite] else []) =
        [] := by
      split <;> rfl
    rw [trace]
    show OnlyCallbacks (ZDQ.appended (quiet ++ _))
    rw [appended_append, shutdown, List.append_nil]
    exact callbacks

end TcpConnection

/-! ## A connection, its loop, and the threads that use it -/

structure Conversation where
  conn : TcpConnection
  loop : EventLoop Unit ConnFunctor
  /-- what the connection did so far -/
  calls : List Call
  /-- the messages `send` accepted so far -/
  sent : List (List UInt8)

namespace Conversation

/-- Calls of `send` and `shutdown` by some thread, and the steps of the loop's thread. -/
inductive Op where
  | send (isInLoopThread : Bool) (message : List UInt8) (w : WriteResult)
  | shutdown (isInLoopThread : Bool) (result : Status)
  | move (v : EventLoop.Move Unit)
  /-- a write event, as if the channel had its write callback -/
  | event (w : WriteResult) (result : Status)
  | functor (w : WriteResult) (result : Status)

/-- Take over what a member function returned and queue what it appended. -/
def act (s : Conversation) (isInLoopThread : Bool) (o : TcpConnection.Outcome) :
    Except Failure Conversation :=
  match o with
  | .error e => .error e
  | .ok (conn, calls) =>
    .ok { s with
      conn := conn
      loop := s.loop.appendAll isInLoopThread (appended calls)
      calls := s.calls ++ calls }

def step (s : Conversation) : Op → Except Failure Conversation
  | .send isInLoopThread message w =>
    { s with sent := if s.conn.connected then s.sent ++ [message] else s.sent }.act
      isInLoopThread (s.conn.send isInLoopThread message w)
  | .shutdown isInLoopThread result =>
    s.act isInLoopThread (s.conn.shutdown isInLoopThread result)
  | .move v =>
    match s.loop.move v with
    | .error e => .error e
    | .ok l => .ok { s with loop := l }
  | .event w result =>
    match s.loop.nextChannel with
    | .error e => .error e
    | .ok (_, l) => { s with loop := l }.act true (s.conn.handleWrite w result)
  | .functor w result =>
    match s.loop.nextFunctor with
    | .error e => .error e
    | .ok (f, l) => { s with loop := l }.act true (s.conn.runFunctor w result f)

/-- The functors on the loop are those `send`, `shutdown` and output put there. -/
def IsTalk : ConnFunctor → Prop
  | .sendInLoop _ => True
  | .shutdownInLoop => True
  | .writeCompleteCallback => True
  | _ => False

theorem act_cases {s t : Conversation} {isInLoopThread : Bool} {o : TcpConnection.Outcome}
    (h : s.act isInLoopThread o = .ok t) :
    ∃ conn calls, o = .ok (conn, calls) ∧ t.conn = conn ∧ t.calls = s.calls ++ calls ∧
      t.loop.queued = s.loop.queued ++ appended calls ∧ t.sent = s.sent := by
  unfold act at h
  split at h
  · cases h
  · cases h
    exact ⟨_, _, rfl, rfl, rfl, EventLoop.queued_appendAll _ _ _, rfl⟩

theorem OnlyCallbacks.talk {fs : List ConnFunctor} (h : OnlyCallbacks fs) :
    ∀ f ∈ fs, IsTalk f := by
  intro f mem
  rw [h f mem]
  trivial

theorem talk_append {q fs r : List ConnFunctor} (talk : ∀ f ∈ q, IsTalk f)
    (callbacks : OnlyCallbacks fs) (after : r = q ++ fs) : ∀ f ∈ r, IsTalk f := by
  intro f mem
  rw [after, List.mem_append] at mem
  rcases mem with mem | mem
  · exact talk f mem
  · exact OnlyCallbacks.talk callbacks f mem

theorem sends_bytes {c d : TcpConnection} {message : List UInt8} {before calls : List Call}
    {ms : List (List UInt8)} (h : TcpConnection.Sends c d message calls)
    (bytes : TcpConnection.accepted before ++ c.outputBuf.readable = ms.flatten) :
    TcpConnection.accepted (before ++ calls) ++ d.outputBuf.readable =
      (ms ++ [message]).flatten := by
  rw [TcpConnection.accepted_append, List.append_assoc, h.bytes, ← List.append_assoc, bytes,
    List.flatten_append, List.flatten_singleton]

/-! ## The output -/

/-- The message a step runs `sendInLoop` with, and the answer of `::write`. -/
def taken (s : Conversation) : Op → Option (List UInt8 × WriteResult)
  | .send isInLoopThread message w =>
    if s.conn.state = .kConnected ∧ isInLoopThread = true then some (message, w) else none
  | .functor w _ =>
    match s.loop.nextFunctor with
    | .ok (.sendInLoop message, _) => some (message, w)
    | _ => none
  | _ => none

/-- The buffer is handed no more than an `int` counts. -/
def Counted (s : Conversation) (op : Op) : Prop :=
  ∀ message w, s.taken op = some (message, w) → s.conn.TailFits message w

/-- What is known of the output: every message `send` accepted is queued, or its bytes are
pending or were taken by `::write`. -/
structure Carries (s : Conversation) : Prop where
  pending : s.conn.PendingIffWriteing
  talk : ∀ f ∈ s.loop.queued, IsTalk f
  bytes : ∃ ms : List (List UInt8), (ms ++ messages s.loop.queued).Perm s.sent ∧
    TcpConnection.accepted s.calls ++ s.conn.outputBuf.readable = ms.flatten

/-- A call that has nothing to do with the output. -/
def IsShutdown (call : Call) : Prop := call = .shutdownWrite ∨ call = .append .shutdownInLoop

/-- What a step does to the output. -/
inductive Outputs (s : Conversation) (op : Op) (t : Conversation) : Prop where
  | takes {message : List UInt8} {w : WriteResult} {calls : List Call}
      (taken : s.taken op = some (message, w))
      (ran : s.conn.sendInLoop message w = .ok (t.conn, calls))
      (trace : t.calls = s.calls ++ calls)
      (queue : t.loop.queued = s.loop.queued ++ appended calls ∧ t.sent = s.sent ++ [message] ∨
        ∃ rest, s.loop.queued = .sendInLoop message :: rest ∧
          t.loop.queued = rest ++ appended calls ∧ t.sent = s.sent) : Outputs s op t
  | later {message : List UInt8} (conn : t.conn = s.conn)
      (trace : t.calls = s.calls ++ [.append (.sendInLoop message)])
      (queue : t.loop.queued = s.loop.queued ++ [.sendInLoop message])
      (sent : t.sent = s.sent ++ [message]) : Outputs s op t
  | writes {w : WriteResult} {result : Status} {calls : List Call}
      (ran : s.conn.handleWrite w result = .ok (t.conn, calls))
      (trace : t.calls = s.calls ++ calls)
      (queue : t.loop.queued = s.loop.queued ++ appended calls) (sent : t.sent = s.sent) :
      Outputs s op t
  /-- functors that send nothing may have run -/
  | other {calls : List Call} {p : List ConnFunctor}
      (channel : t.conn.channel = s.conn.channel) (output : t.conn.outputBuf = s.conn.outputBuf)
      (trace : t.calls = s.calls ++ calls) (quiet : ∀ call ∈ calls, IsShutdown call)
      (queue : s.loop.queued ++ appended calls = p ++ t.loop.queued) (sendless : Sendless p)
      (sent : t.sent = s.sent) : Outputs s op t

theorem appended_of_shutdown {calls : List Call} (quiet : ∀ call ∈ calls, IsShutdown call) :
    ∀ f ∈ appended calls, f = .shutdownInLoop := by
  induction calls with
  | nil => simp [appended]
  | cons call rest ih =>
    have tail := ih (fun c hc => quiet c (List.mem_cons_of_mem call hc))
    rcases quiet call List.mem_cons_self with rfl | rfl
    · exact tail
    · intro f hf
      rcases List.mem_cons.mp hf with rfl | hf
      · rfl
      · exact tail f hf

theorem accepted_of_shutdown {calls : List Call} (quiet : ∀ call ∈ calls, IsShutdown call) :
    TcpConnection.accepted calls = [] := by
  induction calls with
  | nil => rfl
  | cons call rest ih =>
    have tail := ih (fun c hc => quiet c (List.mem_cons_of_mem call hc))
    rcases quiet call List.mem_cons_self with rfl | rfl <;> exact tail

theorem shutdownInLoop_quiet {c d : TcpConnection} {result : Status} {calls : List Call}
    (h : c.shutdownInLoop result = .ok (d, calls)) :
    d = c ∧ ∀ call ∈ calls, IsShutdown call := by
  obtain ⟨same, ⟨_, rfl⟩ | ⟨_, rfl⟩⟩ := TcpConnection.shutdownInLoop_cases h
  · exact ⟨same, by simp⟩
  · exact ⟨same, by simp [IsShutdown]⟩

/-- `shutdown` asks for the shutdown at once or later, or not at all. -/
theorem shutdown_quiet {c d : TcpConnection} {isInLoopThread : Bool} {result : Status}
    {calls : List Call} (h : c.shutdown isInLoopThread result = .ok (d, calls)) :
    d.channel = c.channel ∧ d.outputBuf = c.outputBuf ∧ ∀ call ∈ calls, IsShutdown call := by
  unfold TcpConnection.shutdown at h
  split at h
  · dsimp only at h
    split at h
    · obtain ⟨rfl, quiet⟩ := shutdownInLoop_quiet h
      exact ⟨rfl, rfl, quiet⟩
    · cases h
      exact ⟨rfl, rfl, by simp [IsShutdown]⟩
  · cases h
    exact ⟨rfl, rfl, by simp⟩

theorem send_outputs {s t : Conversation} {isInLoopThread : Bool} {message : List UInt8}
    {w : WriteResult} (h : s.step (.send isInLoopThread message w) = .ok t) :
    Outputs s (.send isInLoopThread message w) t := by
  obtain ⟨conn, calls, hsend, rfl, trace, queue, sent⟩ := act_cases h
  dsimp only at trace queue sent
  rw [TcpConnection.send] at hsend
  by_cases isOpen : s.conn.state = .kConnected
  · have accepts : s.conn.connected = true := by simp [TcpConnection.connected, isOpen]
    rw [if_pos isOpen] at hsend
    rw [if_pos accepts] at sent
    cases isInLoopThread with
    | true => exact .takes (by simp [taken, isOpen]) hsend trace (.inl ⟨queue, sent⟩)
    | false =>
      obtain ⟨same, rfl⟩ := Prod.mk.inj (Except.ok.inj hsend)
      exact .later same.symm trace queue sent
  · have rejects : ¬ s.conn.connected = true := by simp [TcpConnection.connected, isOpen]
    rw [if_neg isOpen] at hsend
    rw [if_neg rejects] at sent
    obtain ⟨same, rfl⟩ := Prod.mk.inj (Except.ok.inj hsend)
    exact .other (p := []) (by rw [same]) (by rw [same]) trace (by simp) queue.symm
      (by simp [Sendless]) sent

theorem functor_outputs {s t : Conversation} (talk : ∀ f ∈ s.loop.queued, IsTalk f)
    {w : WriteResult} {result : Status} (h : s.step (.functor w result) = .ok t) :
    Outputs s (.functor w result) t := by
  simp only [step] at h
  split at h
  · cases h
  rename_i f l next
  obtain ⟨before, _⟩ := EventLoop.nextFunctor_cases next
  obtain ⟨conn, calls, ran, rfl, trace, queue, sent⟩ := act_cases h
  dsimp only at ran trace queue sent
  have known := talk f (by rw [before]; exact List.mem_cons_self)
  cases f with
  | sendInLoop message =>
    exact .takes (by simp [taken, next]) ran trace (.inr ⟨_, before, queue, sent⟩)
  | shutdownInLoop =>
    obtain ⟨same, quiet⟩ := shutdownInLoop_quiet ran
    refine .other (p := [.shutdownInLoop]) (by rw [same]) (by rw [same]) trace quiet ?_
      (by simp [Sendless]) sent
    rw [before, queue]
    rfl
  | writeCompleteCallback =>
    obtain ⟨same, rfl⟩ := Prod.mk.inj (Except.ok.inj ran)
    refine .other (p := [.writeCompleteCallback]) (by rw [same]) (by rw [same]) trace (by simp)
      ?_ (by simp [Sendless]) sent
    rw [before, queue]
    rfl
  | connectEstablished => cases known
  | connectDestroyed => cases known
  | forceCloseInLoop => cases known

theorem step_outputs {s t : Conversation} (talk : ∀ f ∈ s.loop.queued, IsTalk f) {op : Op}
    (h : s.step op = .ok t) : Outputs s op t := by
  cases op with
  | send isInLoopThread message w => exact send_outputs h
  | shutdown isInLoopThread result =>
    obtain ⟨conn, calls, hshut, rfl, trace, queue, sent⟩ := act_cases h
    obtain ⟨channel, output, quiet⟩ := shutdown_quiet hshut
    exact .other (p := []) channel output trace quiet queue.symm (by simp [Sendless]) sent
  | move v =>
    simp only [step] at h
    split at h
    · cases h
    · rename_i l moved
      cases h
      have queue : s.loop.queued ++ appended [] = [] ++ l.queued := by
        rw [(EventLoop.move_cases moved).1]
        exact List.append_nil _
      exact .other rfl rfl (List.append_nil _).symm (by simp) queue (by simp [Sendless]) rfl
  | event w result =>
    simp only [step] at h
    split at h
    · cases h
    rename_i l next
    obtain ⟨same, _⟩ := EventLoop.nextChannel_cases next
    obtain ⟨conn, calls, ran, rfl, trace, queue, sent⟩ := act_cases h
    dsimp only at ran trace queue sent
    rw [same] at queue
    exact .writes ran trace queue sent
  | functor w result => exact functor_outputs talk h

/-- One step keeps the books of the output. -/
theorem Carries.step {s t : Conversation} (carries : Carries s) {op : Op}
    (counted : s.Counted op) (h : s.step op = .ok t) : Carries t := by
  obtain ⟨ms, perm, bytes⟩ := carries.bytes
  cases step_outputs carries.talk h with
  | takes taken ran trace queue =>
    rename_i message w calls
    have sends := TcpConnection.sends_of_sendInLoop carries.pending (counted _ _ taken) ran
    rcases queue with ⟨queue, sent⟩ | ⟨rest, before, queue, sent⟩
    · refine ⟨sends.pending, talk_append carries.talk sends.appended queue,
        ⟨ms ++ [message], ?_, ?_⟩⟩
      · rw [queue, sent, messages_append, sends.appended.sendless.messages, List.append_nil,
          List.append_assoc]
        exact (List.Perm.append_left ms List.perm_append_comm).trans
          (by rw [← List.append_assoc]; exact perm.append_right [message])
      · rw [trace]
        exact sends_bytes sends bytes
    · refine ⟨sends.pending, talk_append ?_ sends.appended queue, ⟨ms ++ [message], ?_, ?_⟩⟩
      · intro f mem
        exact carries.talk f (by rw [before]; exact List.mem_cons_of_mem _ mem)
      · rw [before, messages] at perm
        rw [queue, sent, messages_append, sends.appended.sendless.messages, List.append_nil,
          List.append_assoc, List.singleton_append]
        exact perm
      · rw [trace]
        exact sends_bytes sends bytes
  | later conn trace queue sent =>
    rename_i message
    refine ⟨by rw [conn]; exact carries.pending, ?_, ⟨ms, ?_, ?_⟩⟩
    · intro f mem
      rw [queue, List.mem_append, List.mem_singleton] at mem
      rcases mem with mem | rfl
      · exact carries.talk f mem
      · trivial
    · rw [queue, sent, messages_append, ← List.append_assoc]
      exact perm.append_right [message]
    · rw [trace, TcpConnection.accepted_append, conn]
      simpa [TcpConnection.accepted] using bytes
  | writes ran trace queue sent =>
    rename_i w result calls
    rcases TcpConnection.handleWrite_spec carries.pending w result with
      ⟨_, _, hd, moved, pending, _⟩ | ⟨_, hexit⟩
    · rw [ran] at hd
      cases hd
      have callbacks := (TcpConnection.drains_of_handleWrite ran).appended
      refine ⟨pending, talk_append carries.talk callbacks queue, ⟨ms, ?_, ?_⟩⟩
      · rw [queue, messages_append, callbacks.sendless.messages, List.append_nil, sent]
        exact perm
      · rw [trace, TcpConnection.accepted_append, List.append_assoc, moved, bytes]
    · rw [ran] at hexit
      cases hexit
  | other channel output trace quiet queue sendless sent =>
    rename_i calls p
    have asked := appended_of_shutdown quiet
    have noneSent : messages (appended calls) = [] := by
      apply Sendless.messages
      intro message mem
      cases asked _ mem
    refine ⟨?_, ?_, ⟨ms, ?_, ?_⟩⟩
    · rw [TcpConnection.PendingIffWriteing, channel, output]
      exact carries.pending
    · intro f mem
      have mem : f ∈ s.loop.queued ++ appended calls := by
        rw [queue]
        exact List.mem_append_right _ mem
      rcases List.mem_append.mp mem with mem | mem
      · exact carries.talk f mem
      · rw [asked f mem]
        trivial
    · have same := congrArg messages queue
      rw [messages_append, messages_append, noneSent, sendless.messages, List.append_nil,
        List.nil_append] at same
      rw [← same, sent]
      exact perm
    · rw [trace, TcpConnection.accepted_append, accepted_of_shutdown quiet, List.append_nil,
        output]
      exact bytes

/-- An established connection with nothing sent and nothing queued. -/
structure Fresh (s : Conversation) : Prop where
  state : s.conn.state = .kConnected
  unsent : s.conn.outputBuf.readable = []
  idle : s.conn.channel.isWriteing = false
  queue : s.loop.queued = []
  calls : s.calls = []
  sent : s.sent = []

theorem Fresh.carries {s : Conversation} (fresh : Fresh s) : Carries s := by
  refine ⟨?_, by simp [fresh.queue], ⟨[], ?_, ?_⟩⟩
  · simp [TcpConnection.PendingIffWriteing, fresh.unsent, fresh.idle]
  · simp [fresh.queue, fresh.sent, messages]
  · simp [fresh.calls, fresh.unsent, TcpConnection.accepted]

end Conversation

end ZDQ

import ThreadAndNet.Conversation

/-!
# In what order the messages of several threads go out

`send` writes at once on the loop's thread and queues a functor on any other. What goes out is
made of whole messages, those of the loop's thread in the order of its calls and those of all
other threads in the order of theirs; only between the two the order can change.
-/

namespace ZDQ

open Machine

namespace Conversation

/-- The messages `sendInLoop` has run with that were sent on the loop's thread, or on another. -/
def sentBy (inLoop : Bool) (ran : List (Bool × List UInt8)) : List (List UInt8) :=
  ran.filterMap fun r => if r.1 = inLoop then some r.2 else none

@[simp] theorem sentBy_append (inLoop : Bool) (first second : List (Bool × List UInt8)) :
    sentBy inLoop (first ++ second) = sentBy inLoop first ++ sentBy inLoop second :=
  List.filterMap_append

/-- The message that a call of `send` on such a thread has accepted. -/
def newly (s : Conversation) (inLoop : Bool) : Op → List (List UInt8)
  | .send isInLoopThread message _ =>
    if isInLoopThread = inLoop ∧ s.conn.connected = true then [message] else []
  | _ => []

end Conversation

/-- A conversation with what was accepted from whom. -/
structure Senders where
  talk : Conversation
  /-- on the loop's thread -/
  own : List (List UInt8)
  /-- on the other threads, in the order of their calls -/
  others : List (List UInt8)

namespace Senders

open Conversation TcpConnection

def step (j : Senders) (op : Op) : Except Failure Senders :=
  (j.talk.step op).map fun talk =>
    ⟨talk, j.own ++ j.talk.newly true op, j.others ++ j.talk.newly false op⟩

/-- What has gone out or is pending is a merge of what the loop's thread has sent and of what
the other threads have sent, as far as it is not queued. -/
structure Merged (j : Senders) (ran : List (Bool × List UInt8)) : Prop where
  bytes : accepted j.talk.calls ++ j.talk.conn.outputBuf.readable =
    (ran.map Prod.snd).flatten
  own : sentBy true ran = j.own
  others : sentBy false ran ++ messages j.talk.loop.queued = j.others

variable {j k : Senders}

/-- The bytes of one message more. -/
theorem bytes_ran {c d : TcpConnection} {message : List UInt8} {before calls : List Call}
    {ran : List (Bool × List UInt8)} (inLoop : Bool) (h : Sends c d message calls)
    (bytes : accepted before ++ c.outputBuf.readable = (ran.map Prod.snd).flatten) :
    accepted (before ++ calls) ++ d.outputBuf.readable =
      ((ran ++ [(inLoop, message)]).map Prod.snd).flatten := by
  rw [List.map_append]
  exact sends_bytes h bytes

theorem Merged.send {ran : List (Bool × List UInt8)} (merged : Merged j ran)
    (carries : Carries j.talk) {isInLoopThread : Bool} {message : List UInt8} {w : WriteResult}
    (counted : j.talk.Counted (.send isInLoopThread message w))
    (h : j.step (.send isInLoopThread message w) = .ok k) : ∃ more, Merged k (ran ++ more) := by
  obtain ⟨talk, made, rfl⟩ := map_cases h
  obtain ⟨conn, calls, hsend, rfl, trace, queue, _⟩ := act_cases made
  dsimp only at trace queue
  rw [TcpConnection.send] at hsend
  by_cases isOpen : j.talk.conn.state = .kConnected
  · have accepts : j.talk.conn.connected = true := by simp [TcpConnection.connected, isOpen]
    rw [if_pos isOpen] at hsend
    cases isInLoopThread with
    | true =>
      have fits := counted message w (by simp [taken, isOpen])
      have sends := sends_of_sendInLoop carries.pending fits hsend
      refine ⟨[(true, message)], ?_, ?_, ?_⟩
      · rw [trace]
        exact bytes_ran true sends merged.bytes
      · rw [sentBy_append, merged.own]
        simp [sentBy, newly, accepts]
      · rw [sentBy_append, queue, messages_append, sends.appended.sendless.messages,
          ← merged.others]
        simp [sentBy, newly]
    | false =>
      obtain ⟨same, rfl⟩ := Prod.mk.inj (Except.ok.inj hsend)
      refine ⟨[], ?_, ?_, ?_⟩
      · rw [trace, accepted_append, ← same, List.append_nil]
        simpa [accepted] using merged.bytes
      · rw [List.append_nil, merged.own]
        simp [newly]
      · rw [List.append_nil, queue, messages_append, ← List.append_assoc, merged.others]
        simp [newly, accepts, appended, messages]
  · have rejects : ¬ j.talk.conn.connected = true := by simp [TcpConnection.connected, isOpen]
    rw [if_neg isOpen] at hsend
    obtain ⟨same, rfl⟩ := Prod.mk.inj (Except.ok.inj hsend)
    refine ⟨[], ?_, ?_, ?_⟩
    · rw [trace, ← same, List.append_nil, List.append_nil]
      exact merged.bytes
    · rw [List.append_nil, merged.own]
      simp [newly, rejects]
    · rw [List.append_nil, queue, messages_append, ← List.append_assoc, merged.others]
      simp [newly, rejects, appended, messages]

/-- Nothing is written, sent or run. -/
theorem Merged.still {ran : List (Bool × List UInt8)} (merged : Merged j ran) {t : Conversation}
    {calls : List Call} (output : t.conn.outputBuf = j.talk.conn.outputBuf)
    (trace : t.calls = j.talk.calls ++ calls) (silent : accepted calls = [])
    (queue : messages t.loop.queued = messages j.talk.loop.queued) :
    Merged ⟨t, j.own ++ [], j.others ++ []⟩ ran := by
  refine ⟨?_, ?_, ?_⟩
  · rw [output, trace, accepted_append, silent, List.append_nil]
    exact merged.bytes
  · rw [merged.own]
    exact (List.append_nil _).symm
  · rw [queue, merged.others]
    exact (List.append_nil _).symm

theorem messages_shutdown {calls : List Call} (quiet : ∀ call ∈ calls, IsShutdown call) :
    messages (appended calls) = [] := by
  apply Sendless.messages
  intro message mem
  cases appended_of_shutdown quiet _ mem

theorem Merged.functor {ran : List (Bool × List UInt8)} (merged : Merged j ran)
    (carries : Carries j.talk) {w : WriteResult} {result : Status}
    (counted : j.talk.Counted (.functor w result)) (h : j.step (.functor w result) = .ok k) :
    ∃ more, Merged k (ran ++ more) := by
  obtain ⟨talk, made, rfl⟩ := map_cases h
  simp only [Conversation.step] at made
  split at made
  · cases made
  rename_i f l next
  obtain ⟨before, _⟩ := EventLoop.nextFunctor_cases next
  obtain ⟨conn, calls, did, rfl, trace, queue, _⟩ := act_cases made
  dsimp only at did trace queue
  have known := carries.talk f (by rw [before]; exact List.mem_cons_self)
  cases f with
  | sendInLoop message =>
    have fits := counted message w (by simp [taken, next])
    have sends := sends_of_sendInLoop carries.pending fits did
    refine ⟨[(false, message)], ?_, ?_, ?_⟩
    · rw [trace]
      exact bytes_ran false sends merged.bytes
    · rw [sentBy_append, merged.own]
      simp [sentBy, newly]
    · rw [sentBy_append, queue, messages_append, sends.appended.sendless.messages,
        ← merged.others, before]
      simp [sentBy, newly, messages]
  | shutdownInLoop =>
    obtain ⟨same, quiet⟩ := shutdownInLoop_quiet did
    refine ⟨[], ?_⟩
    rw [List.append_nil]
    refine merged.still (by rw [same]) trace (accepted_of_shutdown quiet) ?_
    rw [queue, messages_append, messages_shutdown quiet, before, List.append_nil]
    rfl
  | writeCompleteCallback =>
    obtain ⟨same, rfl⟩ := Prod.mk.inj (Except.ok.inj did)
    refine ⟨[], ?_⟩
    rw [List.append_nil]
    refine merged.still (by rw [same]) trace rfl ?_
    rw [queue, before]
    show messages (l.queued ++ []) = messages l.queued
    rw [List.append_nil]
  | connectEstablished => cases known
  | connectDestroyed => cases known
  | forceCloseInLoop => cases known

theorem Merged.event {ran : List (Bool × List UInt8)} (merged : Merged j ran)
    (carries : Carries j.talk) {w : WriteResult} {result : Status}
    (h : j.step (.event w result) = .ok k) : Merged k ran := by
  obtain ⟨talk, made, rfl⟩ := map_cases h
  simp only [Conversation.step] at made
  split at made
  · cases made
  rename_i l next
  obtain ⟨same, _⟩ := EventLoop.nextChannel_cases next
  obtain ⟨conn, calls, did, rfl, trace, queue, _⟩ := act_cases made
  dsimp only at did trace queue
  rw [same] at queue
  rcases handleWrite_spec carries.pending w result with ⟨_, _, hd, moved, _⟩ | ⟨_, exits⟩
  · rw [did] at hd
    cases hd
    have callbacks := (drains_of_handleWrite did).appended
    refine ⟨?_, ?_, ?_⟩
    · rw [trace, accepted_append, List.append_assoc, moved]
      exact merged.bytes
    · rw [merged.own]
      exact (List.append_nil _).symm
    · rw [queue, messages_append, callbacks.sendless.messages, List.append_nil, merged.others]
      exact (List.append_nil _).symm
  · rw [did] at exits
    cases exits

/-- One step runs with at most one message more. -/
theorem Merged.step {ran : List (Bool × List UInt8)} (merged : Merged j ran)
    (carries : Carries j.talk) {op : Op} (counted : j.talk.Counted op) (h : j.step op = .ok k) :
    ∃ more, Merged k (ran ++ more) := by
  cases op with
  | send isInLoopThread message w => exact merged.send carries counted h
  | functor w result => exact merged.functor carries counted h
  | event w result => exact ⟨[], by rw [List.append_nil]; exact merged.event carries h⟩
  | shutdown isInLoopThread result =>
    obtain ⟨talk, made, rfl⟩ := map_cases h
    obtain ⟨conn, calls, did, rfl, trace, queue, _⟩ := act_cases made
    obtain ⟨_, output, quiet⟩ := shutdown_quiet did
    refine ⟨[], ?_⟩
    rw [List.append_nil]
    refine merged.still output trace (accepted_of_shutdown quiet) ?_
    rw [queue, messages_append, messages_shutdown quiet, List.append_nil]
  | move v =>
    obtain ⟨talk, made, rfl⟩ := map_cases h
    simp only [Conversation.step] at made
    split at made
    · cases made
    · rename_i l moved
      cases made
      refine ⟨[], ?_⟩
      rw [List.append_nil]
      refine merged.still rfl (List.append_nil _).symm rfl ?_
      dsimp only
      rw [(EventLoop.move_cases moved).1]

/-- A message whose length is the same as an `int`. -/
def Short : Op → Prop
  | .send _ message _ => message.length < 2 ^ 31
  | _ => True

instance : DecidablePred Short
  | .send _ message _ => inferInstanceAs (Decidable (message.length < 2 ^ 31))
  | .shutdown _ _ | .move _ | .event _ _ | .functor _ _ => isTrue trivial

theorem counted_of_short {s : Conversation} {op : Op} (short : Short op)
    (queued : ∀ message ∈ messages s.loop.queued, message.length < 2 ^ 31) : s.Counted op := by
  intro message w takes
  refine tailFits_of_short _ ?_ w
  cases op with
  | send isInLoopThread m v =>
    simp only [taken] at takes
    split at takes
    · cases takes
      exact short
    · cases takes
  | functor v result =>
    simp only [taken] at takes
    split at takes
    · rename_i m l next
      cases takes
      refine queued message ?_
      rw [(EventLoop.nextFunctor_cases next).1]
      exact List.mem_cons_self
    · cases takes
  | shutdown _ _ | move _ | event _ _ => cases takes

/-- What is known of a run of short messages. -/
structure Inv (j : Senders) : Prop where
  carries : Carries j.talk
  merged : ∃ ran, Merged j ran
  short : ∀ message ∈ j.others, message.length < 2 ^ 31

theorem Inv.step (inv : Inv j) {op : Op} (short : Short op) (h : j.step op = .ok k) : Inv k := by
  obtain ⟨ran, merged⟩ := inv.merged
  have counted : j.talk.Counted op := by
    refine counted_of_short short fun message mem => inv.short message ?_
    rw [← merged.others]
    exact List.mem_append_right _ mem
  obtain ⟨more, kept⟩ := merged.step inv.carries counted h
  obtain ⟨talk, stepped, rfl⟩ := map_cases h
  refine ⟨inv.carries.step counted stepped, ⟨_, kept⟩, fun message mem => ?_⟩
  rcases List.mem_append.mp mem with old | new
  · exact inv.short message old
  · cases op with
    | send isInLoopThread m w =>
      simp only [newly] at new
      split at new
      · rw [List.mem_singleton.mp new]
        exact short
      · cases new
    | _ => cases new

/-- However calls of `send` on the loop's thread and on others mix with the loop's steps: what
has gone out, with what is pending, is made of whole messages; those of the loop's thread are
all there in order, and those of the other threads too, but for the ones still queued. -/
theorem messages_merged {s : Conversation} (fresh : s.Fresh) {ops : List Op}
    (short : ∀ op ∈ ops, Short op) (h : run step ⟨s, [], []⟩ ops = .ok j) :
    ∃ ran : List (Bool × List UInt8),
      accepted j.talk.calls ++ j.talk.conn.outputBuf.readable = (ran.map Prod.snd).flatten ∧
      sentBy true ran = j.own ∧ sentBy false ran ++ messages j.talk.loop.queued = j.others := by
  have keep : ∀ (j : Senders) (op : Op) (k : Senders),
      Inv j → Short op → j.step op = .ok k → Inv k :=
    fun _ _ _ inv short made => inv.step short made
  have start : Merged ⟨s, [], []⟩ [] := by
    refine ⟨?_, rfl, ?_⟩
    · rw [fresh.calls, fresh.unsent]
      rfl
    · rw [fresh.queue]
      rfl
  obtain ⟨_, ⟨ran, merged⟩, _⟩ := run_keeps keep ⟨fresh.carries, ⟨[], start⟩, by simp⟩
    (along_of_mem (fun op mem _ => short op mem) _) h
  exact ⟨ran, merged.bytes, merged.own, merged.others⟩

/-- An established connection. -/
def established : Conversation where
  conn := { TcpConnection.new 7 false with
    state := .kConnected
    channel := (Channel.new 7).enableReading }
  loop := .new
  calls := []
  sent := []

/-- Two other threads send before the loop's thread does; one functor has run. -/
def threeSend : List Op :=
  [.send false [1, 2] (.accepted 0), .send false [3] (.accepted 0), .send true [4] (.accepted 1),
    .move .loop, .move .test, .move (.polled []), .move .doAppendFunctors,
    .functor (.accepted 1) none]

theorem messages_merged_threeSend : ∃ j, run step ⟨established, [], []⟩ threeSend = .ok j ∧
    accepted j.talk.calls ++ j.talk.conn.outputBuf.readable = [4, 1, 2] ∧
    ∃ ran : List (Bool × List UInt8),
      accepted j.talk.calls ++ j.talk.conn.outputBuf.readable = (ran.map Prod.snd).flatten ∧
      sentBy true ran = j.own ∧ sentBy false ran ++ messages j.talk.loop.queued = j.others := by
  obtain ⟨j, ran, bytes⟩ := ok_of_any (o := run step ⟨established, [], []⟩ threeSend)
    (p := fun j => accepted j.talk.calls ++ j.talk.conn.outputBuf.readable == [4, 1, 2])
    (by decide +kernel)
  have fresh : established.Fresh := ⟨rfl, Buffer.readable_new _, by decide, rfl, rfl, rfl⟩
  exact ⟨j, ran, eq_of_beq bytes, messages_merged fresh (by decide) ran⟩

end Senders

end ZDQ

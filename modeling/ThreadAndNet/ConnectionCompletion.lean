import ThreadAndNet.Conversation

/-!
# When `writeCompleteCallback_` is queued

The drain of `handleWrite` looks at the buffer. `sendInLoop` compares how much of
its own message was written with the length of that message, and an empty message
is written at once, whatever is pending before it.
-/

namespace ZDQ

open Machine

namespace TcpConnection

theorem mem_writeComplete {c : TcpConnection} {f : ConnFunctor}
    (h : .append f ∈ c.writeComplete) : c.writeCompleteCallback = true := by
  unfold writeComplete at h
  split at h
  · rename_i set
    exact set
  · cases h

/-- The callback is queued when nothing of the message has to be kept. -/
theorem keepUnsent_signals {c d : TcpConnection} {message : List UInt8} {k : Nat}
    {calls : List Call} (h : c.keepUnsent message k = .ok (d, calls))
    (signals : .append .writeCompleteCallback ∈ calls) :
    message.length ≤ k ∧ d = c ∧ c.writeCompleteCallback = true := by
  unfold keepUnsent at h
  split at h
  · split at h
    · cases h
    · dsimp only at h
      split at h
      · cases h
        cases signals
      · cases h
        simp at signals
  · rename_i all
    cases h
    exact ⟨Nat.le_of_not_lt all, rfl, mem_writeComplete signals⟩

/-- It is queued with pending output for an empty message only. -/
theorem sendInLoop_signals {c d : TcpConnection} {message : List UInt8} {w : WriteResult}
    {calls : List Call} (h : c.sendInLoop message w = .ok (d, calls))
    (signals : .append .writeCompleteCallback ∈ calls) (pending : d.outputBuf.readable ≠ []) :
    message = [] ∧ c.outputBuf.readable ≠ [] ∧ c.writeCompleteCallback = true := by
  rcases sendInLoop_cases h with ⟨_, empty, _, more, hkeep, rfl⟩ | ⟨_, hkeep⟩
  · have signals : .append .writeCompleteCallback ∈ more := by simpa using signals
    obtain ⟨_, rfl, _⟩ := keepUnsent_signals hkeep signals
    exact absurd ((Buffer.readBuffSize_eq_zero_iff _).mp empty) pending
  · obtain ⟨all, rfl, set⟩ := keepUnsent_signals hkeep signals
    exact ⟨List.length_eq_zero_iff.mp (Nat.le_zero.mp all), pending, set⟩

theorem sendInLoop_empty {c : TcpConnection} {w : WriteResult}
    (pending : c.outputBuf.readable ≠ []) (set : c.writeCompleteCallback = true) :
    c.sendInLoop [] w = .ok (c, [.append .writeCompleteCallback]) := by
  have buffered : ¬ (c.channel.isWriteing = false ∧ c.outputBuf.readBuffSize = 0) :=
    fun direct => pending ((Buffer.readBuffSize_eq_zero_iff _).mp direct.2)
  have none : ¬ 0 < ([] : List UInt8).length := Nat.lt_irrefl 0
  rw [sendInLoop, if_neg buffered, keepUnsent, if_neg none, writeComplete, if_pos set]

end TcpConnection

namespace Conversation

/-- All bytes of the messages that are no longer queued were taken by `::write`. -/
def Complete (s : Conversation) : Prop :=
  s.conn.outputBuf.readable = [] ∧
    ∃ ms : List (List UInt8), (ms ++ messages s.loop.queued).Perm s.sent ∧
      TcpConnection.accepted s.calls = ms.flatten

/-- The step queues `writeCompleteCallback_` although output is pending. -/
def Early (s : Conversation) (op : Op) : Prop :=
  ∃ t calls, s.step op = .ok t ∧ t.calls = s.calls ++ calls ∧
    .append .writeCompleteCallback ∈ calls ∧ ¬ t.Complete

/-- No empty message is sent behind pending output to a callback that waits for it. -/
def Timely (s : Conversation) (op : Op) : Prop :=
  ∀ message w, s.taken op = some (message, w) → s.conn.writeCompleteCallback = true →
    message = [] → s.conn.outputBuf.readable = []

theorem Carries.complete_iff {s : Conversation} (carries : Carries s) :
    s.Complete ↔ s.conn.outputBuf.readable = [] := by
  constructor
  · exact fun complete => complete.1
  · intro empty
    obtain ⟨ms, perm, bytes⟩ := carries.bytes
    rw [empty, List.append_nil] at bytes
    exact ⟨empty, ms, perm, bytes⟩

theorem act_ok (s : Conversation) (isInLoopThread : Bool) (d : TcpConnection)
    (calls : List Call) : ∃ t, s.act isInLoopThread (.ok (d, calls)) = .ok t ∧ t.conn = d ∧
      t.calls = s.calls ++ calls :=
  ⟨_, rfl, rfl, rfl⟩

theorem step_taken {s : Conversation} {op : Op} {message : List UInt8} {w : WriteResult}
    (taken : s.taken op = some (message, w)) {d : TcpConnection} {calls : List Call}
    (ran : s.conn.sendInLoop message w = .ok (d, calls)) :
    ∃ t, s.step op = .ok t ∧ t.conn = d ∧ t.calls = s.calls ++ calls := by
  cases op with
  | send isInLoopThread m v =>
    simp only [Conversation.taken] at taken
    split at taken
    · rename_i here
      cases taken
      simp only [step, TcpConnection.send, here.1, here.2, if_true, ran]
      exact act_ok ..
    · cases taken
  | functor v result =>
    simp only [Conversation.taken] at taken
    split at taken
    · rename_i m l next
      cases taken
      simp only [step, next, TcpConnection.runFunctor, ran]
      exact act_ok { s with loop := l } true d calls
    · cases taken
  | shutdown isInLoopThread result => cases taken
  | move v => cases taken
  | event v result => cases taken

/-- The callback comes too early exactly for an empty message behind pending output. -/
theorem early_iff {s : Conversation} (carries : Carries s) {op : Op} (counted : s.Counted op) :
    Early s op ↔ ¬ Timely s op := by
  constructor
  · rintro ⟨t, calls, h, trace, signals, incomplete⟩ timely
    rw [(carries.step counted h).complete_iff] at incomplete
    have same : ∀ {more : List Call}, t.calls = s.calls ++ more → more = calls :=
      fun trace' => List.append_cancel_left (trace'.symm.trans trace)
    cases step_outputs carries.talk h with
    | takes taken ran trace' queue =>
      cases same trace'
      obtain ⟨rfl, pending, set⟩ := TcpConnection.sendInLoop_signals ran signals incomplete
      exact pending (timely _ _ taken set rfl)
    | later conn trace' queue sent =>
      cases same trace'
      simp at signals
    | writes ran trace' queue sent =>
      cases same trace'
      have kept := carries.step counted h
      cases TcpConnection.drains_of_handleWrite ran with
      | idle unchanged none =>
        rw [none] at signals
        cases signals
      | partly on writeing none =>
        rw [none] at signals
        simp at signals
      | wholly quiet off writeing all hquiet written =>
        rw [kept.pending.mpr incomplete] at off
        cases off
    | other channel output trace' quiet queue sendless sent =>
      cases same trace'
      rcases quiet _ signals with other | other <;> cases other
  · intro late
    simp only [Timely, not_forall] at late
    obtain ⟨message, w, taken, set, rfl, pending⟩ := late
    obtain ⟨t, h, conn, trace⟩ := step_taken taken (TcpConnection.sendInLoop_empty pending set)
    refine ⟨t, _, h, trace, List.mem_singleton_self _, fun complete => ?_⟩
    have empty := complete.1
    rw [conn] at empty
    exact pending empty

theorem never_early_iff {s : Conversation} (start : Carries s) {ops : List Op}
    (counted : Along step Counted s ops) :
    Along step (fun s op => ¬ Early s op) s ops ↔ Along step Timely s ops := by
  induction ops generalizing s with
  | nil => exact iff_of_true trivial trivial
  | cons op rest ih =>
    have here : ¬ Early s op ↔ Timely s op := by
      rw [early_iff start counted.1, not_not]
    cases h : s.step op with
    | error e =>
      simp only [Along, h, and_true]
      exact here
    | ok t =>
      obtain ⟨now, later⟩ := (along_cons_ok h).mp counted
      rw [along_cons_ok h, along_cons_ok h, here, ih (start.step now h) later]

/-- As long as the buffer is handed no more than an `int` counts, no step of a run queues
`writeCompleteCallback_` before everything is written exactly if no empty message is sent
behind pending output. -/
theorem writeComplete_timely_iff {s : Conversation} (fresh : Fresh s) {ops : List Op}
    (counted : Along step Counted s ops) :
    Along step (fun s op => ¬ Early s op) s ops ↔ Along step Timely s ops :=
  never_early_iff fresh.carries counted

section Schedules

/-- An established connection whose user waits for `writeCompleteCallback_`. -/
def notified : Conversation where
  conn := { TcpConnection.new 7 true with
    state := .kConnected
    channel := (Channel.new 7).enableReading }
  loop := .new
  calls := []
  sent := []

theorem notified_fresh : Fresh notified :=
  ⟨rfl, Buffer.readable_new _, by decide, rfl, rfl, rfl⟩

/-- One of two bytes is written, and a message follows before the other. -/
def sendsTwice (message : List UInt8) : List Op :=
  [.send true [1, 2] (.accepted 1), .send true message (.accepted 0)]

theorem sendsTwice_counted {message : List UInt8} (short : message.length < 2 ^ 31) :
    Along step Counted notified (sendsTwice message) := by
  apply along_of_mem
  intro op mem s m w taken
  rcases List.mem_pair.mp mem with rfl | rfl <;>
  · simp only [Conversation.taken] at taken
    split at taken
    · cases taken
      exact TcpConnection.tailFits_of_short _ (by first | exact short | decide) _
    · cases taken

theorem writeComplete_timely_sendsTwice :
    Along step (fun s op => ¬ Early s op) notified (sendsTwice [3]) ↔
      Along step Timely notified (sendsTwice [3]) :=
  writeComplete_timely_iff notified_fresh (sendsTwice_counted (by decide))

/-- An empty message reports the byte before it as written. -/
theorem not_timely_sendsTwice :
    ∃ s t, run step notified [.send true [1, 2] (.accepted 1)] = .ok s ∧
      s.step (.send true [] (.accepted 0)) = .ok t ∧
      t.calls = s.calls ++ [.append .writeCompleteCallback] ∧
      t.conn.outputBuf.readable = [2] ∧
      ¬ Along step (fun s op => ¬ Early s op) notified (sendsTwice []) := by
  have first : ∃ s t, run step notified [.send true [1, 2] (.accepted 1)] = .ok s ∧
      s.step (.send true [] (.accepted 0)) = .ok t ∧
      t.calls = s.calls ++ [.append .writeCompleteCallback] ∧
      t.conn.outputBuf.readable = [2] := ⟨_, _, rfl, rfl, rfl, by decide +kernel⟩
  obtain ⟨s, t, hs, ht, trace, pending⟩ := first
  refine ⟨s, t, hs, ht, trace, pending, fun never => ?_⟩
  have early : Early s (.send true [] (.accepted 0)) := by
    refine ⟨t, _, ht, trace, List.mem_singleton_self _, fun complete => ?_⟩
    rw [complete.1] at pending
    cases pending
  have split : sendsTwice [] =
      [.send true [1, 2] (.accepted 1)] ++ [.send true [] (.accepted 0)] := rfl
  rw [split] at never
  exact never.last hs early

end Schedules

end Conversation

end ZDQ

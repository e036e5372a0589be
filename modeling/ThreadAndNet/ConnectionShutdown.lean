import ThreadAndNet.Conversation

/-!
# `send` and `shutdown` from several threads

On the loop's thread a call acts at once, from another thread it is queued; and
`sendInLoop` and `shutdownInLoop` do not look at `state_` again. The order of
what was queued is the order of the calls, but an immediate `shutdownInLoop`
overtakes what is still in the queue. The conditions of `Orderly` are the two
places where that happens.
-/

namespace ZDQ

open Machine

namespace Conversation

/-- No step overtakes queued output: the loop's own thread calls `shutdown` with
nothing pending only when no `sendInLoop` is queued, and a write event of a
connection that is shutting down empties the buffer only when nothing is queued.
The buffer is handed no more than an `int` counts. -/
def Orderly (s : Conversation) : Op → Prop
  | .send isInLoopThread message w =>
    s.conn.state = .kConnected → isInLoopThread = true → s.conn.TailFits message w
  | .shutdown isInLoopThread _ =>
    s.conn.state = .kConnected → isInLoopThread = true →
      s.conn.channel.isWriteing = false → Sendless s.loop.queued
  | .move _ => True
  | .event w _ =>
    s.conn.state = .kDisconnecting → s.conn.channel.isWriteing = true →
      w.returned s.conn.outputBuf.readable = s.conn.outputBuf.readable.length →
      Sendless s.loop.queued ∧ .shutdownInLoop ∉ s.loop.queued
  | .functor w _ =>
    ∀ message rest, s.loop.queued = .sendInLoop message :: rest →
      s.conn.TailFits message w

/-- How far the shutdown of the connection has got. -/
inductive Stage (s : Conversation) : Prop where
  | open : s.conn.state = .kConnected → .shutdownInLoop ∉ s.loop.queued →
      .shutdownWrite ∉ s.calls → Stage s
  | requested (ahead behind : List ConnFunctor) : s.conn.state = .kDisconnecting →
      s.loop.queued = ahead ++ .shutdownInLoop :: behind → .shutdownInLoop ∉ ahead →
      .shutdownInLoop ∉ behind → Sendless behind → .shutdownWrite ∉ s.calls → Stage s
  | draining : s.conn.state = .kDisconnecting → .shutdownInLoop ∉ s.loop.queued →
      s.conn.channel.isWriteing = true → .shutdownWrite ∉ s.calls → Stage s
  | issued (before after : List Call) : s.conn.state = .kDisconnecting →
      .shutdownInLoop ∉ s.loop.queued → Sendless s.loop.queued →
      s.conn.channel.isWriteing = false →
      s.calls = before ++ .shutdownWrite :: after → .shutdownWrite ∉ before →
      .shutdownWrite ∉ after → (∀ offered n, .write offered n ∉ after) →
      (∃ ms : List (List UInt8), ms.Perm s.sent ∧
        TcpConnection.accepted before = ms.flatten) → Stage s

structure Inv (s : Conversation) : Prop where
  pending : s.conn.PendingIffWriteing
  talk : ∀ f ∈ s.loop.queued, IsTalk f
  /-- every accepted message was put into the output or is queued -/
  bytes : ∃ ms : List (List UInt8), (ms ++ messages s.loop.queued).Perm s.sent ∧
    TcpConnection.accepted s.calls ++ s.conn.outputBuf.readable = ms.flatten
  stage : Stage s

/-- A step that runs some of the queued functors, none of them `shutdownInLoop`, and
queues callbacks only, leaves the shutdown where it was. -/
theorem Stage.advance {s t : Conversation} (stage : Stage s)
    {p rest fs : List ConnFunctor} {calls : List Call}
    (before : s.loop.queued = p ++ rest) (noRequest : .shutdownInLoop ∉ p)
    (after : t.loop.queued = rest ++ fs) (callbacks : OnlyCallbacks fs)
    (hcalls : t.calls = s.calls ++ calls) (noShutdown : .shutdownWrite ∉ calls)
    (state : t.conn.state = s.conn.state)
    (sent : s.conn.state = .kDisconnecting → t.sent = s.sent)
    (stays : s.conn.state = .kDisconnecting → s.conn.channel.isWriteing = true →
      t.conn.channel.isWriteing = true)
    (silent : Sendless s.loop.queued → s.conn.state = .kDisconnecting →
      s.conn.channel.isWriteing = false →
      t.conn.channel.isWriteing = false ∧ ∀ offered n, .write offered n ∉ calls) :
    Stage t := by
  have request : .shutdownInLoop ∉ s.loop.queued → .shutdownInLoop ∉ t.loop.queued := by
    intro none
    rw [before, List.mem_append, not_or] at none
    rw [after, List.mem_append, not_or]
    exact ⟨none.2, callbacks.noRequest⟩
  have issue : .shutdownWrite ∉ s.calls → .shutdownWrite ∉ t.calls := by
    intro unissued
    rw [hcalls, List.mem_append, not_or]
    exact ⟨unissued, noShutdown⟩
  cases stage with
  | «open» isOpen none unissued =>
    exact .open (state.trans isOpen) (request none) (issue unissued)
  | requested ahead behind closing queue noneAhead noneBehind sendless unissued =>
    have split : ∃ ahead', rest = ahead' ++ .shutdownInLoop :: behind ∧
        .shutdownInLoop ∉ ahead' := by
      rw [before] at queue
      rcases List.append_eq_append_iff.mp queue with ⟨l, rfl, hl⟩ | ⟨l, rfl, hl⟩
      · exact ⟨l, hl, fun mem => noneAhead (List.mem_append_right _ mem)⟩
      · cases l with
        | nil => exact ⟨[], by simpa using hl.symm, by simp⟩
        | cons f l =>
          simp only [List.cons_append, List.cons.injEq] at hl
          exact absurd (List.mem_append_right _ (by simp [hl.1])) noRequest
    obtain ⟨ahead', hrest, noneAhead'⟩ := split
    refine .requested ahead' (behind ++ fs) (state.trans closing) ?_ noneAhead' ?_ ?_
      (issue unissued)
    · rw [after, hrest, List.append_assoc, List.cons_append]
    · rw [List.mem_append, not_or]
      exact ⟨noneBehind, callbacks.noRequest⟩
    · intro message
      rw [List.mem_append, not_or]
      exact ⟨sendless message, callbacks.sendless message⟩
  | draining closing none writeing unissued =>
    exact .draining (state.trans closing) (request none) (stays closing writeing)
      (issue unissued)
  | issued first last closing none sendless idle trace noFirst noLast noWrite bytes =>
    obtain ⟨idle', noWrite'⟩ := silent sendless closing idle
    refine .issued first (last ++ calls) (state.trans closing) (request none) ?_ idle' ?_
      noFirst ?_ ?_ ?_
    · intro message
      rw [before] at sendless
      rw [after, List.mem_append, not_or]
      exact ⟨fun mem => sendless message (List.mem_append_right _ mem),
        callbacks.sendless message⟩
    · rw [hcalls, trace, List.append_assoc, List.cons_append]
    · rw [List.mem_append, not_or]
      exact ⟨noLast, noShutdown⟩
    · intro offered n
      rw [List.mem_append, not_or]
      exact ⟨noWrite offered n, noWrite' offered n⟩
    · rw [sent closing]
      exact bytes

theorem Inv.carries {s : Conversation} (inv : Inv s) : Carries s :=
  ⟨inv.pending, inv.talk, inv.bytes⟩

theorem Orderly.counted {s : Conversation} {op : Op} (orderly : s.Orderly op) :
    s.Counted op := by
  intro message w taken
  cases op with
  | send isInLoopThread m v =>
    simp only [Conversation.taken] at taken
    split at taken
    · rename_i here
      cases taken
      exact orderly here.1 here.2
    · cases taken
  | functor v result =>
    simp only [Conversation.taken] at taken
    split at taken
    · rename_i m l next
      cases taken
      exact orderly message _ (EventLoop.nextFunctor_cases next).1
    · cases taken
  | shutdown isInLoopThread result => cases taken
  | move v => cases taken
  | event v result => cases taken

/-- Nothing happened but that some queued callbacks ran. -/
theorem Stage.rest {s t : Conversation} (stage : Stage s) {p : List ConnFunctor}
    (queue : s.loop.queued = p ++ t.loop.queued) (callbacks : OnlyCallbacks p)
    (conn : t.conn = s.conn) (hcalls : t.calls = s.calls) (sent : t.sent = s.sent) :
    Stage t :=
  stage.advance queue callbacks.noRequest (List.append_nil _).symm
    (fun f mem => absurd mem (by simp)) (by rw [hcalls, List.append_nil]) (by simp)
    (by rw [conn]) (fun _ => sent) (fun _ on => by rw [conn]; exact on)
    (fun _ _ off => ⟨by rw [conn]; exact off, by simp⟩)

/-- `shutdownInLoop` with nothing queued that could still be written. -/
theorem Inv.issue {s t : Conversation} (inv : Inv s) (closing : t.conn.state = .kDisconnecting)
    (idle : s.conn.channel.isWriteing = false) (noneSent : messages s.loop.queued = [])
    (unissued : .shutdownWrite ∉ s.calls) (channel : t.conn.channel = s.conn.channel)
    (hcalls : t.calls = s.calls ++ [.shutdownWrite]) (sendless : Sendless t.loop.queued)
    (noRequest : .shutdownInLoop ∉ t.loop.queued) (sent : t.sent = s.sent) : Stage t := by
  obtain ⟨ms, perm, bytes⟩ := inv.bytes
  have empty : s.conn.outputBuf.readable = [] := by
    by_contra some
    rw [inv.pending.mpr some] at idle
    cases idle
  rw [noneSent, List.append_nil] at perm
  refine .issued s.calls [] closing noRequest sendless (by rw [channel]; exact idle) hcalls
    unissued (by simp) (by simp) ⟨ms, by rw [sent]; exact perm, ?_⟩
  rw [empty, List.append_nil] at bytes
  exact bytes

theorem Inv.send {s t : Conversation} (inv : Inv s) {isInLoopThread : Bool}
    {message : List UInt8} {w : WriteResult}
    (orderly : s.Orderly (.send isInLoopThread message w))
    (h : s.step (.send isInLoopThread message w) = .ok t) : Stage t := by
  obtain ⟨conn, calls, hsend, hconn, hcalls, hqueue, hsent⟩ := act_cases h
  rw [TcpConnection.send] at hsend
  by_cases isOpen : s.conn.state = .kConnected
  · have notClosing : s.conn.state ≠ .kDisconnecting := by rw [isOpen]; decide
    rw [if_pos isOpen] at hsend
    dsimp only at hqueue hsent hcalls
    cases isInLoopThread with
    | true =>
      have sends := TcpConnection.sends_of_sendInLoop inv.pending (orderly isOpen rfl) hsend
      rw [← hconn] at sends
      exact inv.stage.advance (p := []) rfl (by simp) hqueue sends.appended hcalls
        sends.noShutdown sends.state (fun closing => absurd closing notClosing)
        (fun closing => absurd closing notClosing) (fun _ closing => absurd closing notClosing)
    | false =>
      cases hsend
      cases inv.stage with
      | «open» _ none unissued =>
        refine .open (by rw [hconn]; exact isOpen) ?_ ?_
        · rw [hqueue, List.mem_append, not_or]
          exact ⟨none, by simp [appended]⟩
        · rw [hcalls, List.mem_append, not_or]
          exact ⟨unissued, by simp⟩
      | requested _ _ closing => exact absurd closing notClosing
      | draining closing => exact absurd closing notClosing
      | issued _ _ closing => exact absurd closing notClosing
  · have rejects : s.conn.connected = false := by simp [TcpConnection.connected, isOpen]
    rw [if_neg isOpen] at hsend
    cases hsend
    dsimp only at hqueue hsent hcalls
    rw [rejects, if_neg (by simp)] at hsent
    exact inv.stage.rest (p := []) (by simp [hqueue, appended])
      (fun f mem => absurd mem (by simp)) hconn (by simp [hcalls]) hsent

theorem Stage.of_open {s : Conversation} (stage : Stage s)
    (isOpen : s.conn.state = .kConnected) :
    .shutdownInLoop ∉ s.loop.queued ∧ .shutdownWrite ∉ s.calls := by
  cases stage with
  | «open» _ none unissued => exact ⟨none, unissued⟩
  | requested _ _ closing => rw [isOpen] at closing; cases closing
  | draining closing => rw [isOpen] at closing; cases closing
  | issued _ _ closing => rw [isOpen] at closing; cases closing

theorem Inv.shutdown {s t : Conversation} (inv : Inv s) {isInLoopThread : Bool}
    {result : Status} (orderly : s.Orderly (.shutdown isInLoopThread result))
    (h : s.step (.shutdown isInLoopThread result) = .ok t) : Stage t := by
  obtain ⟨conn, calls, hshut, hconn, hcalls, hqueue, hsent⟩ := act_cases h
  rw [TcpConnection.shutdown] at hshut
  by_cases isOpen : s.conn.state = .kConnected
  · obtain ⟨none, unissued⟩ := inv.stage.of_open isOpen
    rw [if_pos isOpen] at hshut
    cases isInLoopThread with
    | true =>
      obtain ⟨rfl, ⟨writeing, rfl⟩ | ⟨idle, rfl⟩⟩ := TcpConnection.shutdownInLoop_cases hshut
      · have queue : t.loop.queued = s.loop.queued := by simp [hqueue, appended]
        have same : t.calls = s.calls := by simp [hcalls]
        exact .draining (by rw [hconn]; rfl) (by rw [queue]; exact none)
          (by rw [hconn]; exact writeing) (by rw [same]; exact unissued)
      · have queue : t.loop.queued = s.loop.queued := by simp [hqueue, appended]
        have sendless : Sendless s.loop.queued := orderly isOpen rfl idle
        exact inv.issue (by rw [hconn]; rfl) idle sendless.messages unissued (by rw [hconn]; rfl)
          hcalls (by rw [queue]; exact sendless) (by rw [queue]; exact none) hsent
    | false =>
      cases hshut
      have queue : t.loop.queued = s.loop.queued ++ [.shutdownInLoop] := hqueue
      refine .requested s.loop.queued [] (by rw [hconn]; rfl) queue none (by simp)
        (fun m => by simp) ?_
      rw [hcalls, List.mem_append, not_or]
      exact ⟨unissued, by simp⟩
  · rw [if_neg isOpen] at hshut
    cases hshut
    exact inv.stage.rest (p := []) (by simp [hqueue, appended])
      (fun f mem => absurd mem (by simp)) hconn (by simp [hcalls]) hsent

/-- A write event that empties the buffer of a connection that is shutting down. -/
theorem Inv.drain {s t : Conversation} (inv : Inv s) (closing : s.conn.state = .kDisconnecting)
    (writeing : s.conn.channel.isWriteing = true) (sendless : Sendless s.loop.queued)
    (noRequest : .shutdownInLoop ∉ s.loop.queued) (idle : t.conn.channel.isWriteing = false)
    (state : t.conn.state = s.conn.state) {quiet : List Call} (hquiet : Quiet quiet)
    (hcalls : t.calls = s.calls ++ .write s.conn.outputBuf.readable
      s.conn.outputBuf.readable.length :: (quiet ++ [.shutdownWrite]))
    (hqueue : t.loop.queued = s.loop.queued ++ appended quiet) (sent : t.sent = s.sent) :
    Stage t := by
  obtain ⟨ms, perm, bytes⟩ := inv.bytes
  have unissued : .shutdownWrite ∉ s.calls := by
    cases inv.stage with
    | «open» isOpen => rw [closing] at isOpen; cases isOpen
    | requested ahead behind _ queue => exact absurd (by simp [queue]) noRequest
    | draining _ _ _ unissued => exact unissued
    | issued _ _ _ _ _ off => rw [writeing] at off; cases off
  have sendless' : Sendless t.loop.queued := by
    intro message
    rw [hqueue, List.mem_append, not_or]
    exact ⟨sendless message, hquiet.appended.sendless message⟩
  have written : TcpConnection.accepted (s.calls ++ .write s.conn.outputBuf.readable
      s.conn.outputBuf.readable.length :: quiet) = ms.flatten := by
    rw [TcpConnection.accepted_append, TcpConnection.accepted, hquiet.accepted,
      Int.toNat_natCast, List.take_length, List.append_nil]
    exact bytes
  have trace : t.calls = (s.calls ++ .write s.conn.outputBuf.readable
      s.conn.outputBuf.readable.length :: quiet) ++ .shutdownWrite :: [] := by
    rw [hcalls, List.append_assoc, List.cons_append]
  rw [sendless.messages, List.append_nil] at perm
  refine .issued _ [] (state.trans closing) ?_ sendless' idle trace ?_ (by simp) (by simp)
    ⟨ms, by rw [sent]; exact perm, written⟩
  · rw [hqueue, List.mem_append, not_or]
    exact ⟨noRequest, hquiet.appended.noRequest⟩
  · rw [List.mem_append, List.mem_cons, not_or, not_or]
    exact ⟨unissued, by simp, hquiet.noShutdown⟩

theorem Inv.event {s t : Conversation} (inv : Inv s) {w : WriteResult} {result : Status}
    (orderly : s.Orderly (.event w result)) (h : s.step (.event w result) = .ok t) :
    Stage t := by
  simp only [Conversation.step] at h
  split at h
  · cases h
  rename_i l hnext
  obtain ⟨sameQueue, _⟩ := EventLoop.nextChannel_cases hnext
  obtain ⟨conn, calls, hwrite, hconn, hcalls, hqueue, hsent⟩ := act_cases h
  dsimp only at hwrite hcalls hqueue hsent
  rw [sameQueue] at hqueue
  rcases TcpConnection.handleWrite_spec inv.pending w result with
    ⟨_, _, hd, _, _, state⟩ | ⟨_, hexit⟩
  · rw [hwrite] at hd
    cases hd
    rw [← hconn] at state
    have drains := TcpConnection.drains_of_handleWrite hwrite
    rw [← hconn] at drains
    cases drains with
    | idle same none =>
      subst none
      exact inv.stage.rest (p := []) (by simp [hqueue, appended])
        (fun f mem => absurd mem (by simp)) same (by simp [hcalls]) hsent
    | partly on writeing trace =>
      subst trace
      have callbacks : OnlyCallbacks [] := fun f mem => absurd mem (by simp)
      refine inv.stage.advance (p := []) rfl (by simp) hqueue callbacks hcalls (by simp)
        state (fun _ => hsent) (fun _ _ => on) (fun _ _ off => ?_)
      rw [writeing] at off
      cases off
    | wholly quiet off writeing all hquiet trace =>
      rw [all] at trace
      by_cases closing : s.conn.state = .kDisconnecting
      · obtain ⟨sendless, noRequest⟩ := orderly closing writeing all
        rw [if_pos closing] at trace
        subst trace
        refine inv.drain closing writeing sendless noRequest off state hquiet hcalls ?_ hsent
        rw [hqueue]
        simp [appended]
      · rw [if_neg closing, List.append_nil] at trace
        subst trace
        refine inv.stage.advance (p := []) rfl (by simp) hqueue hquiet.appended hcalls ?_
          state (fun c => absurd c closing) (fun c => absurd c closing)
          (fun _ c => absurd c closing)
        rw [List.mem_cons, not_or]
        exact ⟨by simp, hquiet.noShutdown⟩
  · rw [hwrite] at hexit
    cases hexit

/-- The stage at the moment the loop gets to a queued `shutdownInLoop`. -/
theorem Stage.of_request {s : Conversation} (stage : Stage s) {rest : List ConnFunctor}
    (queue : s.loop.queued = .shutdownInLoop :: rest) :
    s.conn.state = .kDisconnecting ∧ .shutdownWrite ∉ s.calls ∧ Sendless rest ∧
      .shutdownInLoop ∉ rest := by
  have mem : .shutdownInLoop ∈ s.loop.queued := by
    rw [queue]
    exact List.mem_cons_self
  cases stage with
  | «open» _ none => exact absurd mem none
  | draining _ none => exact absurd mem none
  | issued _ _ _ none => exact absurd mem none
  | requested ahead behind closing split noneAhead noneBehind sendless unissued =>
    rw [queue] at split
    cases ahead with
    | nil =>
      simp only [List.nil_append, List.cons.injEq, true_and] at split
      subst split
      exact ⟨closing, unissued, sendless, noneBehind⟩
    | cons f ahead =>
      simp only [List.cons_append, List.cons.injEq] at split
      rw [← split.1] at noneAhead
      exact absurd List.mem_cons_self noneAhead

theorem Inv.functor {s t : Conversation} (inv : Inv s) {w : WriteResult} {result : Status}
    (orderly : s.Orderly (.functor w result)) (h : s.step (.functor w result) = .ok t) :
    Stage t := by
  simp only [Conversation.step] at h
  split at h
  · cases h
  rename_i f l hnext
  obtain ⟨queue, _⟩ := EventLoop.nextFunctor_cases hnext
  obtain ⟨conn, calls, hrun, hconn, hcalls, hqueue, hsent⟩ := act_cases h
  dsimp only at hrun hcalls hqueue hsent
  have talk := inv.talk f (by rw [queue]; exact List.mem_cons_self)
  cases f with
  | sendInLoop message =>
    have sends := TcpConnection.sends_of_sendInLoop inv.pending (orderly message _ queue) hrun
    rw [← hconn] at sends
    refine inv.stage.advance (p := [.sendInLoop message]) queue (by simp) hqueue
      sends.appended hcalls sends.noShutdown sends.state (fun _ => hsent)
      (fun _ => sends.writeing) ?_
    intro sendless
    exact absurd (by rw [queue]; exact List.mem_cons_self) (sendless message)
  | shutdownInLoop =>
    obtain ⟨closing, unissued, sendless, noRequest⟩ := inv.stage.of_request queue
    obtain ⟨rfl, ⟨writeing, rfl⟩ | ⟨idle, rfl⟩⟩ := TcpConnection.shutdownInLoop_cases hrun
    · have rest : t.loop.queued = l.queued := by simp [hqueue, appended]
      have same : t.calls = s.calls := by simp [hcalls]
      exact .draining (by rw [hconn]; exact closing) (by rw [rest]; exact noRequest)
        (by rw [hconn]; exact writeing) (by rw [same]; exact unissued)
    · have rest : t.loop.queued = l.queued := by simp [hqueue, appended]
      refine inv.issue (by rw [hconn]; exact closing) idle ?_ unissued (by rw [hconn])
        hcalls (by rw [rest]; exact sendless) (by rw [rest]; exact noRequest) hsent
      simp only [queue, messages]
      exact sendless.messages
  | writeCompleteCallback =>
    cases hrun
    refine inv.stage.rest (p := [.writeCompleteCallback]) ?_ ?_ hconn (by simp [hcalls]) hsent
    · simp [queue, hqueue, appended]
    · intro g mem
      exact List.mem_singleton.mp mem
  | connectEstablished => cases talk
  | connectDestroyed => cases talk
  | forceCloseInLoop => cases talk

theorem Inv.advances {s t : Conversation} {op : Op} (inv : Inv s) (orderly : s.Orderly op)
    (h : s.step op = .ok t) : Stage t := by
  cases op with
  | send isInLoopThread message w => exact inv.send orderly h
  | shutdown isInLoopThread result => exact inv.shutdown orderly h
  | event w result => exact inv.event orderly h
  | functor w result => exact inv.functor orderly h
  | move v =>
    simp only [Conversation.step] at h
    split at h
    · cases h
    · rename_i l hmove
      cases h
      exact inv.stage.rest (p := []) (EventLoop.move_cases hmove).1.symm
        (fun f mem => absurd mem (by simp)) rfl rfl rfl

theorem Inv.step {s t : Conversation} {op : Op} (inv : Inv s) (orderly : s.Orderly op)
    (h : s.step op = .ok t) : Inv t := by
  obtain ⟨pending, talk, bytes⟩ := inv.carries.step orderly.counted h
  exact ⟨pending, talk, bytes, inv.advances orderly h⟩

/-- Nothing is left that could offer bytes to `::write`, not even in vain. -/
def Silent (s : Conversation) : Prop :=
  s.conn.state ≠ .kConnected ∧ Sendless s.loop.queued ∧ s.conn.channel.isWriteing = false

theorem Fresh.inv {s : Conversation} (fresh : Fresh s) : Inv s := by
  obtain ⟨pending, talk, bytes⟩ := fresh.carries
  exact ⟨pending, talk, bytes,
    .open fresh.state (by simp [fresh.queue]) (by simp [fresh.calls])⟩

theorem split_unique {α : Type*} {x : α} {a b c d : List α} (h : a ++ x :: b = c ++ x :: d)
    (ha : x ∉ a) (hb : x ∉ b) : a = c ∧ b = d := by
  rcases List.append_eq_append_iff.mp h with ⟨l, rfl, hl⟩ | ⟨l, rfl, hl⟩
  · cases l with
    | nil => exact ⟨by simp, by simpa using hl⟩
    | cons y l =>
      simp only [List.cons_append, List.cons.injEq] at hl
      exact absurd (by simp [hl.2]) hb
  · cases l with
    | nil => exact ⟨by simp, by simpa [eq_comm] using hl⟩
    | cons y l =>
      simp only [List.cons_append, List.cons.injEq] at hl
      exact absurd (by simp [hl.1]) ha

/-- In an orderly run `shutdownWrite` comes after every byte of every accepted
message, comes once, and nothing is offered to `::write` after it. -/
theorem shutdownWrite_after_sends {s t : Conversation} (fresh : Fresh s) {ops : List Op}
    (orderly : Along step Orderly s ops) (hrun : run step s ops = .ok t)
    {before after : List Call} (issued : t.calls = before ++ .shutdownWrite :: after) :
    (∃ ms : List (List UInt8), ms.Perm t.sent ∧
      TcpConnection.accepted before = ms.flatten) ∧
    .shutdownWrite ∉ before ∧ .shutdownWrite ∉ after ∧
    (∀ offered n, .write offered n ∉ after) ∧ t.Silent := by
  have inv : Inv t := run_keeps (fun _ _ _ inv cond h => inv.step cond h) fresh.inv orderly hrun
  have mem : .shutdownWrite ∈ t.calls := by
    rw [issued]
    simp
  cases inv.stage with
  | «open» _ _ unissued => exact absurd mem unissued
  | requested _ _ _ _ _ _ _ unissued => exact absurd mem unissued
  | draining _ _ _ unissued => exact absurd mem unissued
  | issued first last closing _ sendless idle trace noFirst noLast noWrite bytes =>
    obtain ⟨rfl, rfl⟩ := split_unique (trace.symm.trans issued) noFirst noLast
    exact ⟨bytes, noFirst, noLast, noWrite, by rw [closing]; decide, sendless, idle⟩

section Schedules

def established : TcpConnection :=
  { TcpConnection.new 7 false with
    state := .kConnected
    channel := (Channel.new 7).enableReading }

def begin : Conversation := ⟨established, .new, [], []⟩

theorem begin_fresh : Fresh begin :=
  ⟨rfl, Buffer.readable_new _, by decide, rfl, rfl, rfl⟩

/-- Another thread sends while the loop polls; then the loop's thread, in an event
handler, calls `shutdown` before it gets to the queue. -/
def overtaking : List Op :=
  [.move .loop, .move .test, .send false [1] (.accepted 0), .move (.polled []),
    .shutdown true none, .move .doAppendFunctors, .functor (.accepted 1) none]

theorem shutdownWrite_before_sends_overtaking :
    ∃ t, run step begin overtaking = .ok t ∧ t.sent = [[1]] ∧
      t.calls = [.append (.sendInLoop [1]), .shutdownWrite, .write [1] 1] :=
  ⟨_, rfl, rfl, rfl⟩

/-- The same calls, but both by the other thread. -/
def queueing : List Op :=
  [.move .loop, .move .test, .send false [1] (.accepted 0), .shutdown false none,
    .move (.polled []), .move .doAppendFunctors, .functor (.accepted 1) none,
    .functor (.accepted 0) none]

theorem queueing_orderly : Along step Orderly begin queueing := by
  refine (along_cons_ok rfl).mpr ⟨trivial, (along_cons_ok rfl).mpr ⟨trivial,
    (along_cons_ok rfl).mpr ⟨?_, (along_cons_ok rfl).mpr ⟨?_, (along_cons_ok rfl).mpr ⟨trivial,
      (along_cons_ok rfl).mpr ⟨trivial, (along_cons_ok rfl).mpr ⟨?_,
        (along_cons_ok rfl).mpr ⟨?_, trivial⟩⟩⟩⟩⟩⟩⟩⟩
  · intro _ here
    cases here
  · intro _ here
    cases here
  · intro message rest queue
    cases queue
    exact TcpConnection.tailFits_of_short _ (by decide) _
  · intro message rest queue
    cases queue

theorem shutdownWrite_after_sends_queueing :
    (∃ ms : List (List UInt8), ms.Perm [[1]] ∧ TcpConnection.accepted
        [.append (.sendInLoop [1]), .append .shutdownInLoop, .write [1] 1] = ms.flatten) ∧
    .shutdownWrite ∉ [Call.append (.sendInLoop [1]), .append .shutdownInLoop, .write [1] 1] ∧
    .shutdownWrite ∉ ([] : List Call) ∧ (∀ offered n, .write offered n ∉ ([] : List Call)) ∧
    ∃ t, run step begin queueing = .ok t ∧ t.Silent := by
  obtain ⟨t, hrun, hsent, hcalls⟩ : ∃ t, run step begin queueing = .ok t ∧ t.sent = [[1]] ∧
      t.calls = [.append (.sendInLoop [1]), .append .shutdownInLoop, .write [1] 1] ++
        .shutdownWrite :: [] := ⟨_, rfl, rfl, rfl⟩
  have all := shutdownWrite_after_sends begin_fresh queueing_orderly hrun hcalls
  rw [hsent] at all
  exact ⟨all.1, all.2.1, all.2.2.1, all.2.2.2.1, t, hrun, all.2.2.2.2⟩

end Schedules

end Conversation

end ZDQ

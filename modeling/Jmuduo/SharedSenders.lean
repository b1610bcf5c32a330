-- The messages of the threads that share a connection: each call of `send` that
-- finds it up leads to one `sendInLoop`, and the messages of a thread come to the
-- socket in the order of its calls. The loop thread is the owner of a mailbox.
import Jmuduo.Mailbox
import Jmuduo.SharedSends

open outcome runs mailboxes
open mailboxes.Mailbox (sentBy fromOthers empty_inv)

namespace jmuduo.net

namespace SharedConnection

open TcpConnection

/-- A message is a range of the memory of its caller, with the bytes that were
there at the call. What comes of it are the bytes that `sendInLoop` found, or
nothing when it returned at an `EPIPE`. -/
abbrev Mail (τ : Type) := Mailbox τ (Range × List Byte) (Option (List Byte))

/-- The message that the functor has yet to send. -/
def Functor.message : Functor → Option (Range × List Byte)
  | .sendInLoop range said => some (range, said)
  | .shutdownInLoop | .connectDestroy | .other _ => none

/-- The message that the thread has in its hand. -/
def Calling.message : Calling → Option (Range × List Byte)
  | .sending range said => some (range, said)
  | .idle | .shutting | .shut => none

/-- The messages of the functors. -/
def messages (fs : List Functor) : List (Range × List Byte) := fs.filterMap Functor.message

@[simp] theorem messages_append (fs gs : List Functor) :
    messages (fs ++ gs) = messages fs ++ messages gs := List.filterMap_append

/-- The bytes that were sent, in the order of the messages. -/
def sentBytes {τ : Type} (mail : Mail τ) : List Byte :=
  mail.handled.flatMap fun x => x.2.2.getD []

section

variable {τ κ : Type} [DecidableEq τ]

/-- What comes of a message in `sendInLoop`. -/
def took (message : Message) (w : WriteResult) (s : SharedConnection τ κ) : Option (List Byte) :=
  if s.conn.TakesEpipe w then none else some message.bytes

/-- What the step is to the mail of the loop thread. -/
def Act.mail (s : SharedConnection τ κ) :
    Act τ κ → Option (Mailbox.Act τ (Range × List Byte) (Option (List Byte)))
  | .send t range w =>
    let message := range.read s.memory
    if s.conn.state_ = .kConnected then
      if s.loop_.isInLoopThread t then some (.direct (range, message.bytes) (s.took message w))
      else some (.offer t (range, message.bytes))
    else none
  | .queueSend t => some (.post t)
  | .loop .callFunctor w =>
    match s.loop_.functors with
    | .sendInLoop range _ :: _ => some (.handle (s.took (range.read s.memory) w))
    | _ => none
  | _ => none

/-- The mail after a step. -/
def after (mail : Mail τ) :
    Option (Mailbox.Act τ (Range × List Byte) (Option (List Byte))) → Mail τ
  | some b => b.apply mail
  | none => mail

end

end SharedConnection

/-- A shared connection, and the mail of its loop thread so far. -/
structure SharedMail (τ κ : Type) where
  shared : SharedConnection τ κ
  mail : SharedConnection.Mail τ

namespace SharedMail

open SharedConnection TcpConnection

variable {τ κ : Type} [DecidableEq τ]

/-- All the interleavings of the threads, with the mail that they make. -/
def machine [DecidableEq κ] (threadId : τ) (wakeChannel : κ) (memory : Nat → Byte) (sockfd : Int)
    (writeComplete highWaterMark : Bool) : Machine (SharedMail τ κ) (Act τ κ) where
  init s := s = ⟨construct threadId wakeChannel memory sockfd writeComplete highWaterMark,
    .empty threadId⟩
  step s a s' := a.Enabled s.shared ∧ a.run s.shared = .ok s'.shared ∧
    s'.mail = after s.mail (a.mail s.shared)

/-- The mailbox agrees with the connection: a message in a hand is that of the
call that the thread is in, the queue has those of the functors, and the output
those that were handled. -/
structure Agrees (s : SharedConnection τ κ) (mail : Mail τ) : Prop where
  owner : mail.owner = s.loop_.threadId_
  hand : ∀ t, mail.hand t = (s.calling t).message
  queue : mail.queue.map Prod.snd = messages s.loop_.waiting
  output : sent s.conn.trace = sentBytes mail

section

variable {s s' : SharedConnection τ κ} {mail : Mail τ}

omit [DecidableEq τ] in
theorem Agrees.same (h : Agrees s mail) (hid : s'.loop_.threadId_ = s.loop_.threadId_)
    (hcalling : ∀ t, (s'.calling t).message = (s.calling t).message)
    (hwaiting : messages s'.loop_.waiting = messages s.loop_.waiting)
    (hsent : sent s'.conn.trace = sent s.conn.trace) : Agrees s' mail := by
  refine ⟨h.owner.trans hid.symm, fun t => ?_, ?_, ?_⟩
  · rw [hcalling]
    exact h.hand t
  · rw [hwaiting]
    exact h.queue
  · rw [hsent]
    exact h.output

theorem after_owner (mail : Mail τ)
    (b : Option (Mailbox.Act τ (Range × List Byte) (Option (List Byte)))) :
    (after mail b).owner = mail.owner := by
  cases b with
  | none => rfl
  | some b => exact b.apply_owner mail

/-- A step that is none of the mail sends nothing. -/
theorem sent_of_silent [DecidableEq κ] {a : Act τ κ} (hs : s.conn.Streams) (he : a.Enabled s)
    (hok : a.run s = .ok s') (hmail : a.mail s = none) :
    sent s'.conn.trace = sent s.conn.trace := by
  rcases (Act.effect he hok).sent hs with ⟨_, hsent⟩ | ⟨_, _, _, hsends, _⟩
  · exact hsent
  · cases hsends with
    | direct ha hup =>
      subst ha
      simp only [Act.mail, hup, if_true] at hmail
      split at hmail <;> cases hmail
    | @queued range _ _ ha =>
      unfold Act.calls at ha
      split at ha
      · cases hfs : s.loop_.functors with
        | nil => simp [hfs] at ha
        | cons f fs =>
          simp only [hfs, List.head?_cons, Option.map_some, Option.some.injEq,
            Prod.mk.injEq] at ha
          obtain ⟨rfl, rfl⟩ := ha
          simp [Act.mail, hfs] at hmail
      · cases ha

omit [DecidableEq τ] in
/-- What `sendInLoop` leaves in the trace. -/
theorem sent_of_took {message : Message} {said : List Byte} {w : WriteResult}
    (hs : s.conn.Streams) (hok : s.sendInLoop message said w = .ok s') :
    sent s'.conn.trace = sent s.conn.trace ++ (s.took message w).getD [] := by
  obtain ⟨c, hc, rfl⟩ := sendInLoop_eq_ok.mp hok
  rw [(sendInLoop_bytes hs hc).1]
  unfold took
  split <;> rfl

/-! ## One step -/

theorem messages_queueInLoop (l : EventLoop τ κ Functor) (t : τ) (f : Functor) :
    messages (l.queueInLoop t f).waiting = messages l.waiting ++ f.message.toList := by
  have hwaiting : (l.queueInLoop t f).waiting = l.waiting ++ [f] := (List.append_assoc _ _ _).symm
  rw [hwaiting, messages_append]
  cases f <;> rfl

theorem shutdown_frame (s : SharedConnection τ κ) (t : τ) :
    (s.shutdown t).loop_ = s.loop_ ∧ ((s.shutdown t).calling = s.calling ∨
      (s.shutdown t).calling = Function.update s.calling t .shutting) := by
  unfold SharedConnection.shutdown
  split
  · split
    · exact ⟨rfl, Or.inl rfl⟩
    · exact ⟨rfl, Or.inr rfl⟩
  · exact ⟨rfl, Or.inl rfl⟩

theorem Agrees.direct (h : Agrees s mail) (hs : s.conn.Streams) {range : Range} {w : WriteResult}
    (hok : s.sendInLoop (range.read s.memory) (range.read s.memory).bytes w = .ok s') :
    Agrees s' (after mail (some (.direct (range, (range.read s.memory).bytes)
      (s.took (range.read s.memory) w)))) := by
  have houtput := sent_of_took hs hok
  obtain ⟨c, _, rfl⟩ := sendInLoop_eq_ok.mp hok
  refine ⟨h.owner, h.hand, h.queue, ?_⟩
  rw [houtput, h.output]
  simp [after, Mailbox.Act.apply, sentBytes]

theorem Agrees.offer (h : Agrees s mail) (t : τ) (range : Range) (said : List Byte) :
    Agrees (s.setCalling t (.sending range said))
      (after mail (some (.offer t (range, said)))) := by
  refine ⟨h.owner, fun u => ?_, h.queue, h.output⟩
  simp only [after, Mailbox.Act.apply, setCalling]
  by_cases hu : u = t
  · subst hu
    rw [Function.update_self, Function.update_self]
    rfl
  · rw [Function.update_of_ne hu, Function.update_of_ne hu]
    exact h.hand u

theorem Agrees.post (h : Agrees s mail) {t : τ} {range : Range} {said : List Byte}
    (ht : s.calling t = .sending range said) :
    mail.hand t = some (range, said) ∧
      Agrees (s.queueSend t) (after mail (some (.post t))) := by
  have hhand : mail.hand t = some (range, said) := by
    rw [h.hand, ht]
    rfl
  refine ⟨hhand, ?_⟩
  unfold SharedConnection.queueSend
  simp only [ht, after, Mailbox.Act.apply, hhand]
  refine ⟨h.owner, fun u => ?_, ?_, h.output⟩
  · simp only [setCalling]
    by_cases hu : u = t
    · subst hu
      rw [Function.update_self, Function.update_self]
      rfl
    · rw [Function.update_of_ne hu, Function.update_of_ne hu]
      exact h.hand u
  · simp only [setCalling]
    rw [messages_queueInLoop, List.map_append, h.queue]
    rfl

theorem Agrees.handle (h : Agrees s mail) (hs : s.conn.Streams) {range : Range} {said : List Byte}
    {fs : List Functor} {w : WriteResult} (hfs : s.loop_.functors = .sendInLoop range said :: fs)
    (hok : { s with loop_ := s.loop_.callFunctor }.sendInLoop (range.read s.memory) said w =
      .ok s') :
    mail.queue ≠ [] ∧
      Agrees s' (after mail (some (.handle (s.took (range.read s.memory) w)))) := by
  have houtput := sent_of_took (s := { s with loop_ := s.loop_.callFunctor }) hs hok
  obtain ⟨c, _, rfl⟩ := sendInLoop_eq_ok.mp hok
  have hqueue := h.queue
  have hwaiting : s.loop_.waiting = .sendInLoop range said :: s.loop_.callFunctor.waiting := by
    simp [EventLoop.waiting, EventLoop.callFunctor, hfs]
  rw [hwaiting] at hqueue
  obtain ⟨x, queue, hq, hx, hrest⟩ := List.map_eq_cons_iff.mp hqueue
  refine ⟨by simp [hq], ?_⟩
  simp only [after, Mailbox.Act.apply, hq]
  refine ⟨?_, h.hand, hrest, ?_⟩
  · rw [h.owner]
    simp only [EventLoop.callFunctor]
    split <;> rfl
  · rw [houtput]
    simp only
    rw [h.output]
    simp [sentBytes]
    rfl

theorem mail_of_other (w : WriteResult) {f : Functor} {fs : List Functor}
    (hfs : s.loop_.functors = f :: fs) (hf : f.message = none) :
    (Act.loop .callFunctor w).mail s = none := by
  unfold Act.mail
  cases f with
  | sendInLoop range said => cases hf
  | _ => simp [hfs]

variable [DecidableEq κ]

theorem Agrees.loop (h : Agrees s mail) (hr : s.Ready) (hs : s.conn.Streams)
    {b : EventLoop.Act τ κ Functor} {w : WriteResult}
    (he : (Act.loop b w).Enabled s)
    (hok : (Act.loop b w).run s = .ok s') :
    (∀ c, (Act.loop b w).mail s = some c → c.Enabled mail) ∧
      Agrees s' (after mail ((Act.loop b w).mail s)) := by
  obtain ⟨hloop, hcalling⟩ := run_loop hok
  have hid : s'.loop_.threadId_ = s.loop_.threadId_ := by
    rw [hloop]
    exact (EventLoop.apply_fields s.loop_ b).1
  -- a step that hands over no message
  have hsilent : (Act.loop b w).mail s = none →
      messages (b.called s.loop_) = [] → messages b.queued = [] →
      Agrees s' (after mail ((Act.loop b w).mail s)) := by
    intro hmail hcalled hqueued
    have hwait := congrArg messages (EventLoop.waiting_apply hr.loop_ he.1)
    rw [messages_append, messages_append, hcalled, hqueued, List.append_nil,
      List.nil_append] at hwait
    rw [hmail]
    refine h.same hid (fun t => ?_) ?_ (sent_of_silent hs he hok hmail)
    · rw [hcalling]
    · rw [hloop]
      exact hwait.symm
  cases b with
  | callFunctor =>
    obtain ⟨f, fs, hfs⟩ := List.exists_cons_of_ne_nil he.1.2
    have hcalled : (.callFunctor : EventLoop.Act τ κ Functor).called s.loop_ = [f] := by
      simp [EventLoop.Act.called, hfs]
    cases hf : f.message with
    | none =>
      have hmail := mail_of_other w hfs hf
      refine ⟨by simp [hmail], hsilent hmail ?_ rfl⟩
      rw [hcalled]
      exact List.filterMap_cons_none hf
    | some m =>
      cases f with
      | sendInLoop range said =>
        rw [Act.run_of_calls (f := .sendInLoop range said) (w := w)
          (by simp [Act.calls, hfs])] at hok
        obtain ⟨hne, hagrees⟩ := h.handle hs hfs hok
        simp only [Act.mail, hfs]
        refine ⟨?_, hagrees⟩
        rintro c ⟨⟩
        exact hne
      | _ => cases hf
  | queueInLoop t f =>
    refine ⟨fun c hc => (by cases hc), hsilent rfl rfl ?_⟩
    cases f with
    | other n => rfl
    | _ => exact he.2.elim
  | _ => exact ⟨fun c hc => (by cases hc), hsilent rfl rfl rfl⟩

theorem Agrees.step {a : Act τ κ} (h : Agrees s mail) (hr : s.Ready)
    (hs : s.conn.Streams) (he : a.Enabled s) (hok : a.run s = .ok s') :
    (∀ c, a.mail s = some c → c.Enabled mail) ∧
      Agrees s' (after mail (a.mail s)) := by
  -- a step that the loop and the hands have nothing to do with
  have hsilent : a.mail s = none → s'.loop_.threadId_ = s.loop_.threadId_ →
      (∀ t, (s'.calling t).message = (s.calling t).message) →
      messages s'.loop_.waiting = messages s.loop_.waiting →
      (∀ c, a.mail s = some c → c.Enabled mail) ∧
        Agrees s' (after mail (a.mail s)) := by
    intro hmail hid hcalling hwaiting
    rw [hmail]
    exact ⟨fun c hc => (by cases hc), h.same hid hcalling hwaiting (sent_of_silent hs he hok hmail)⟩
  -- a step of a thread from one place without a message to another
  have hset : ∀ t c, (s.calling t).message = none → c.message = none →
      ∀ u, (Function.update s.calling t c u).message = (s.calling u).message := by
    intro t c ht hc u
    by_cases hu : u = t
    · subst hu
      rw [Function.update_self, hc, ht]
    · rw [Function.update_of_ne hu]
  cases a with
  | loop b w => exact h.loop hr hs he hok
  | handler p =>
    have hok' := hok
    simp only [Act.run] at hok'
    obtain ⟨c, _, rfl⟩ := onConn_eq_ok.mp hok'
    exact hsilent rfl rfl (fun _ => rfl) rfl
  | send t range w =>
    have hok' := hok
    simp only [Act.run, SharedConnection.send] at hok'
    split at hok'
    · rename_i hup
      split at hok'
      · rename_i ht
        simp only [Act.mail, hup, ht, if_true]
        refine ⟨?_, h.direct hs hok'⟩
        rintro c ⟨⟩
        trivial
      · rename_i ht
        cases hok'
        simp only [Act.mail, hup, ht, if_true]
        refine ⟨?_, h.offer t range _⟩
        rintro c ⟨⟩
        have hidle : s.calling t = .idle := he.1
        refine ⟨fun e => ht ?_, ?_⟩
        · rw [e, h.owner]
          simp [EventLoop.isInLoopThread]
        · rw [h.hand, hidle]
          rfl
    · rename_i hup
      cases hok'
      exact hsilent (by simp [Act.mail, hup]) rfl (fun _ => rfl) rfl
  | queueSend t =>
    cases hok
    obtain ⟨range, said, ht⟩ := he
    obtain ⟨hhand, hagrees⟩ := h.post ht
    refine ⟨?_, hagrees⟩
    rintro c ⟨⟩
    exact fun e => by rw [hhand] at e; cases e
  | shutdown t =>
    have hidle : s.calling t = .idle := he.1
    have hok' := hok
    cases hok'
    rcases shutdown_frame s t with ⟨hloop, hcalling⟩
    refine hsilent rfl (by rw [hloop]) (fun u => ?_) (by rw [hloop])
    rcases hcalling with hsame | hshutting
    · rw [hsame]
    · rw [hshutting]
      exact hset t .shutting (by rw [hidle]; rfl) rfl u
  | setState t =>
    have hc : s.calling t = .shutting := he
    have hok' := hok
    cases hok'
    exact hsilent rfl rfl (hset t .shut (by rw [hc]; rfl) rfl) rfl
  | queueShutdown t =>
    have hc : s.calling t = .shut := he
    have hok' := hok
    cases hok'
    refine hsilent rfl rfl (hset t .idle (by rw [hc]; rfl) rfl) ?_
    exact (messages_queueInLoop s.loop_ t .shutdownInLoop).trans (List.append_nil _)
  | removeConnectionInLoop t =>
    have hok' := hok
    simp only [Act.run, SharedConnection.removeConnectionInLoop] at hok'
    split at hok'
    · obtain ⟨c, _, rfl⟩ := onConn_eq_ok.mp hok'
      exact hsilent rfl rfl (fun _ => rfl) rfl
    · cases hok'
      refine hsilent rfl rfl (fun _ => rfl) ?_
      exact (messages_queueInLoop s.loop_ t .connectDestroy).trans (List.append_nil _)
  | store address byte =>
    have hok' := hok
    cases hok'
    exact hsilent rfl rfl (fun _ => rfl) rfl

end

/-! ## The runs -/

variable [DecidableEq κ]

structure Inv (s : SharedMail τ κ) : Prop where
  ready : s.shared.Ready
  streams : s.shared.conn.Streams
  agrees : Agrees s.shared s.mail
  mail : s.mail.Inv

omit [DecidableEq κ] in
theorem construct_inv (threadId : τ) (wakeChannel : κ) (memory : Nat → Byte) (sockfd : Int)
    (writeComplete highWaterMark : Bool) :
    (⟨construct threadId wakeChannel memory sockfd writeComplete highWaterMark,
      .empty threadId⟩ : SharedMail τ κ).Inv :=
  ⟨construct_ready threadId wakeChannel memory sockfd writeComplete highWaterMark,
    (construct_streams sockfd writeComplete highWaterMark).1,
    ⟨rfl, fun _ => rfl, rfl, rfl⟩, empty_inv threadId⟩

/-- Every step of the connection is a step of the mailbox, or none of it. -/
theorem Inv.mail_step (threadId : τ) {s : SharedMail τ κ} (h : s.Inv) {a : Act τ κ}
    {shared' : SharedConnection τ κ} (he : a.Enabled s.shared)
    (hok : a.run s.shared = .ok shared') :
    after s.mail (a.mail s.shared) = s.mail ∨ ∃ b,
      (Mailbox.machine threadId).step s.mail b (after s.mail (a.mail s.shared)) := by
  obtain ⟨henabled, _⟩ := h.agrees.step h.ready h.streams he hok
  cases hmail : a.mail s.shared with
  | none => exact Or.inl rfl
  | some b => exact Or.inr ⟨b, henabled b hmail, rfl⟩

theorem Inv.step {s : SharedMail τ κ} (h : s.Inv) {a : Act τ κ}
    {shared' : SharedConnection τ κ} (he : a.Enabled s.shared)
    (hok : a.run s.shared = .ok shared') :
    (⟨shared', after s.mail (a.mail s.shared)⟩ : SharedMail τ κ).Inv := by
  obtain ⟨_, hagrees⟩ := h.agrees.step h.ready h.streams he hok
  refine ⟨h.ready.step he hok, (Act.effect he hok).streams h.streams, hagrees, ?_⟩
  rcases h.mail_step s.mail.owner he hok with hsame | ⟨b, hb⟩
  · simp only [hsame]
    exact h.mail
  · exact h.mail.next hb

theorem take_step {threadId : τ} {wakeChannel : κ} {memory : Nat → Byte} {sockfd : Int}
    {writeComplete highWaterMark : Bool} (s : SharedConnection τ κ) (a : Act τ κ)
    (s' : SharedConnection τ κ) (hok : a.take s = .ok s') :
    (SharedConnection.machine threadId wakeChannel memory sockfd writeComplete highWaterMark).step
      s a s' := by
  unfold Act.take at hok
  split at hok
  · rename_i he
    exact ⟨he, hok⟩
  · cases hok

/-- In every run, each message that a call of `send` took over is sent once, with
those of its thread in the order of the calls: what was handled, the functors that
wait and the hand of the thread make up what it said. The messages of the other
threads are sent in the order in which they were queued, and the output is what
`sendInLoop` found of all of them. -/
theorem the_messages_of_each_thread_are_sent_once_in_their_order (threadId : τ) (wakeChannel : κ)
    (memory : Nat → Byte) (sockfd : Int) (writeComplete highWaterMark : Bool)
    (as : List (Act τ κ)) (s : SharedConnection τ κ)
    (h : (SharedConnection.machine threadId wakeChannel memory sockfd writeComplete
      highWaterMark).Run
        (construct threadId wakeChannel memory sockfd writeComplete highWaterMark) as s) :
    ∃ mail : Mail τ,
      (machine threadId wakeChannel memory sockfd writeComplete highWaterMark).Run
        ⟨construct threadId wakeChannel memory sockfd writeComplete highWaterMark,
          .empty threadId⟩ as ⟨s, mail⟩ ∧
      (∀ t, sentBy t mail.done ++ sentBy t mail.queue ++ (s.calling t).message.toList =
        sentBy t mail.accepted) ∧
      fromOthers threadId mail.done ++ mail.queue = mail.posted ∧
      mail.queue.map Prod.snd = messages s.loop_.waiting ∧
      written s.conn.trace ++ s.conn.unsent = sentBytes mail ∧
      (s.loop_.waiting = [] → ∀ t, s.calling t = .idle →
        sentBy t mail.done = sentBy t mail.accepted) := by
  have hstart := construct_inv threadId wakeChannel memory sockfd writeComplete highWaterMark
  obtain ⟨⟨_, mail⟩, hrun, rfl, hinv, howner⟩ := h.simulation
    (N := machine threadId wakeChannel memory sockfd writeComplete highWaterMark)
    (R := fun shared t => t.shared = shared ∧ t.Inv ∧ t.mail.owner = threadId)
    (fun shared t a shared' hR hst => ⟨⟨shared', after t.mail (a.mail t.shared)⟩,
      by
        obtain ⟨rfl, hinv, howner⟩ := hR
        exact ⟨⟨hst.1, hst.2, rfl⟩, rfl, hinv.step hst.1 hst.2, (after_owner _ _).trans howner⟩⟩)
    ⟨rfl, hstart, rfl⟩
  have hmail := hinv.mail
  refine ⟨mail, hrun, fun t => ?_, ?_, hinv.agrees.queue, ?_, fun hnone t hidle => ?_⟩
  · rw [← hinv.agrees.hand]
    exact hmail.sender t
  · rw [← howner]
    exact hmail.posts
  · rw [hinv.streams.stream]
    exact hinv.agrees.output
  · refine hmail.all_handled ?_ ?_
    · have hqueue := hinv.agrees.queue
      rw [hnone] at hqueue
      rw [List.map_eq_nil_iff.mp hqueue]
      rfl
    · rw [hinv.agrees.hand, hidle]
      rfl

/-- A byte of another thread is queued before the loop thread sends two, and sent
behind them. -/
theorem a_queued_message_is_sent_behind_those_of_the_loop_thread :
    ∃ mail : Mail Bool, sentBytes mail = [1, 2, 1] ∧
      sentBy true mail.done = sentBy true mail.accepted := by
  obtain ⟨s, hok, hp⟩ := exists_of_passes
    (x := ([.handler .established, .send true firstByte (.wrote 0), .queueSend true,
        .send false twoBytes (.wrote 1)] ++ firstFunctor (.wrote 0) :
          List (Act Bool Unit)).foldlM Act.take
      (construct false () (fun n => n + 1) 5 false false))
    (p := fun s => s.loop_.waiting = [] ∧ s.calling true = .idle ∧
      written s.conn.trace ++ s.conn.unsent = [1, 2, 1]) (by decide +kernel)
  simp only [decide_eq_true_eq] at hp
  obtain ⟨hwaiting, hidle, hbytes⟩ := hp
  have hrun : (SharedConnection.machine false () (fun n => n + 1) 5 false false).Run
      (construct false () (fun n => n + 1) 5 false false) _ s := .of_foldlM take_step hok
  obtain ⟨mail, _, _, _, _, hsent, hrest⟩ :=
    the_messages_of_each_thread_are_sent_once_in_their_order _ _ _ _ _ _ _ _ hrun
  exact ⟨mail, hsent.symm.trans hbytes, hrest hwaiting true hidle⟩

end SharedMail

end jmuduo.net

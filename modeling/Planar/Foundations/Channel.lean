import Mathlib.Tactic.Common

/-
  A sending and a receiving task over a bounded channel.

  Every interleaving of the two ends after the same number
  of steps, and in the state that the receiver reaches when
  it takes all messages of the sender one after the other.

  Main declarations:
    * `Sending`, `Receiving`, `Piped`
    * `Piped.Step`, `Piped.Run`
    * `Produces`, `Consumes`
    * `Piped.Pending`, `Piped.Pending.run`
-/

------------------------------------------------------------
-- Tasks
------------------------------------------------------------

namespace Planar

/-
  What a sending task does next. It is `gone` once its end of
  the channel is dropped, and a message is refused once the
  other end is.
-/
inductive Sending (π μ : Type) where
  | work (next : π)
  | send (message : μ) (sent refused : π)
  | gone

/-
  What a receiving task does next. It receives nothing when
  the channel is empty and the sender is gone.
-/
inductive Receiving (κ μ : Type) where
  | work (next : κ)
  | receive (next : Option μ → κ)
  | gone

variable {π κ μ : Type}

/- Two tasks and the messages that wait between them. -/
structure Piped (π κ μ : Type) where
  sender : π
  queue : List μ
  receiver : κ

variable {P : π → Sending π μ}
variable {C : κ → Receiving κ μ}
variable {capacity : Nat}

/-
  One step of either task. Sending waits for room, and
  receiving waits for a message.
-/
inductive Piped.Step
    (P : π → Sending π μ)
    (C : κ → Receiving κ μ)
    (capacity : Nat) :
    Piped π κ μ → Piped π κ μ → Prop
  | senderWorks {p p' : π} {queue : List μ} {k : κ}
      (hSender : P p = .work p') :
      Step P C capacity ⟨p, queue, k⟩ ⟨p', queue, k⟩
  | sent {p p' r : π} {m : μ} {queue : List μ} {k : κ}
      (hSender : P p = .send m p' r)
      (hRoom : queue.length < capacity)
      (hOpen : C k ≠ .gone) :
      Step P C capacity ⟨p, queue, k⟩
        ⟨p', queue ++ [m], k⟩
  | refused {p p' r : π} {m : μ} {queue : List μ} {k : κ}
      (hSender : P p = .send m p' r)
      (hClosed : C k = .gone) :
      Step P C capacity ⟨p, queue, k⟩ ⟨r, queue, k⟩
  | receiverWorks {p : π} {queue : List μ} {k k' : κ}
      (hReceiver : C k = .work k') :
      Step P C capacity ⟨p, queue, k⟩ ⟨p, queue, k'⟩
  | received
      {p : π} {m : μ} {queue : List μ} {k : κ}
      {next : Option μ → κ}
      (hReceiver : C k = .receive next) :
      Step P C capacity ⟨p, m :: queue, k⟩
        ⟨p, queue, next (some m)⟩
  | ended {p : π} {k : κ} {next : Option μ → κ}
      (hReceiver : C k = .receive next)
      (hGone : P p = .gone) :
      Step P C capacity ⟨p, [], k⟩ ⟨p, [], next none⟩

/- As many steps in a row. -/
inductive Piped.Run
    (P : π → Sending π μ)
    (C : κ → Receiving κ μ)
    (capacity : Nat) :
    Piped π κ μ → Nat → Piped π κ μ → Prop
  | start {w : Piped π κ μ} :
      Run P C capacity w 0 w
  | step {count : Nat} {w w' w'' : Piped π κ μ}
      (hStep : Piped.Step P C capacity w w')
      (hRun : Run P C capacity w' count w'') :
      Run P C capacity w (count + 1) w''

/- Both tasks are gone. -/
def Piped.Ended
    (P : π → Sending π μ)
    (C : κ → Receiving κ μ)
    (w : Piped π κ μ) : Prop :=
  P w.sender = .gone ∧ C w.receiver = .gone

------------------------------------------------------------
-- Messages
------------------------------------------------------------

/-
  The messages that a sender still has when none is refused,
  and the steps it takes.
-/
inductive Produces
    (P : π → Sending π μ) : π → List μ → Nat → Prop
  | gone {p : π}
      (hSender : P p = .gone) :
      Produces P p [] 0
  | work {p p' : π} {messages : List μ} {steps : Nat}
      (hSender : P p = .work p')
      (hRest : Produces P p' messages steps) :
      Produces P p messages (steps + 1)
  | send
      {p p' r : π} {m : μ} {messages : List μ}
      {steps : Nat}
      (hSender : P p = .send m p' r)
      (hRest : Produces P p' messages steps) :
      Produces P p (m :: messages) (steps + 1)

/-
  A receiver that takes all messages, where it stops, and
  the steps it takes.
-/
inductive Consumes
    (C : κ → Receiving κ μ) : κ → List μ → κ → Nat → Prop
  | gone {k : κ}
      (hReceiver : C k = .gone) :
      Consumes C k [] k 0
  | work
      {k k' last : κ} {messages : List μ} {steps : Nat}
      (hReceiver : C k = .work k')
      (hRest : Consumes C k' messages last steps) :
      Consumes C k messages last (steps + 1)
  | receive
      {k last : κ} {next : Option μ → κ} {m : μ}
      {messages : List μ} {steps : Nat}
      (hReceiver : C k = .receive next)
      (hRest :
        Consumes C (next (some m)) messages last steps) :
      Consumes C k (m :: messages) last (steps + 1)
  | ended
      {k last : κ} {next : Option μ → κ} {steps : Nat}
      (hReceiver : C k = .receive next)
      (hRest : Consumes C (next none) [] last steps) :
      Consumes C k [] last (steps + 1)

/- A sender that is gone has no more messages. -/
theorem Produces.of_gone
    {p : π}
    {messages : List μ}
    {steps : Nat}
    (hProduces : Produces P p messages steps)
    (hGone : P p = .gone) :
    messages = [] ∧ steps = 0 := by
  cases hProduces with
  | gone _ => exact ⟨rfl, rfl⟩
  | work hSender _ => cases hGone.symm.trans hSender
  | send hSender _ => cases hGone.symm.trans hSender

theorem Produces.of_work
    {p p' : π}
    {messages : List μ}
    {steps : Nat}
    (hProduces : Produces P p messages steps)
    (hSender : P p = .work p') :
    ∃ steps', steps = steps' + 1 ∧
      Produces P p' messages steps' := by
  cases hProduces with
  | gone hOther => cases hSender.symm.trans hOther
  | send hOther _ => cases hSender.symm.trans hOther
  | work hOther hRest =>
      cases hSender.symm.trans hOther
      exact ⟨_, rfl, hRest⟩

theorem Produces.of_send
    {p p' r : π}
    {m : μ}
    {messages : List μ}
    {steps : Nat}
    (hProduces : Produces P p messages steps)
    (hSender : P p = .send m p' r) :
    ∃ messages' steps',
      messages = m :: messages' ∧ steps = steps' + 1 ∧
        Produces P p' messages' steps' := by
  cases hProduces with
  | gone hOther => cases hSender.symm.trans hOther
  | work hOther _ => cases hSender.symm.trans hOther
  | send hOther hRest =>
      cases hSender.symm.trans hOther
      exact ⟨_, _, rfl, rfl, hRest⟩

/- A receiver that is gone has taken all messages. -/
theorem Consumes.of_gone
    {k last : κ}
    {messages : List μ}
    {steps : Nat}
    (hConsumes : Consumes C k messages last steps)
    (hGone : C k = .gone) :
    messages = [] ∧ last = k ∧ steps = 0 := by
  cases hConsumes with
  | gone _ => exact ⟨rfl, rfl, rfl⟩
  | work hReceiver _ => cases hGone.symm.trans hReceiver
  | receive hReceiver _ =>
      cases hGone.symm.trans hReceiver
  | ended hReceiver _ => cases hGone.symm.trans hReceiver

theorem Consumes.of_work
    {k k' last : κ}
    {messages : List μ}
    {steps : Nat}
    (hConsumes : Consumes C k messages last steps)
    (hReceiver : C k = .work k') :
    ∃ steps', steps = steps' + 1 ∧
      Consumes C k' messages last steps' := by
  cases hConsumes with
  | gone hOther => cases hReceiver.symm.trans hOther
  | receive hOther _ => cases hReceiver.symm.trans hOther
  | ended hOther _ => cases hReceiver.symm.trans hOther
  | work hOther hRest =>
      cases hReceiver.symm.trans hOther
      exact ⟨_, rfl, hRest⟩

/- A receiver that waits goes on with the first message. -/
theorem Consumes.of_receive
    {k last : κ}
    {next : Option μ → κ}
    {messages : List μ}
    {steps : Nat}
    (hConsumes : Consumes C k messages last steps)
    (hReceiver : C k = .receive next) :
    ∃ steps', steps = steps' + 1 ∧
      Consumes C (next messages.head?) messages.tail
        last steps' := by
  cases hConsumes with
  | gone hOther => cases hReceiver.symm.trans hOther
  | work hOther _ => cases hReceiver.symm.trans hOther
  | receive hOther hRest =>
      cases hReceiver.symm.trans hOther
      exact ⟨_, rfl, hRest⟩
  | ended hOther hRest =>
      cases hReceiver.symm.trans hOther
      exact ⟨_, rfl, hRest⟩

theorem Consumes.messages_of_zero
    {k last : κ}
    {messages : List μ}
    (hConsumes : Consumes C k messages last 0) :
    messages = [] ∧ last = k ∧ C k = .gone := by
  cases hConsumes with
  | gone hReceiver => exact ⟨rfl, rfl, hReceiver⟩

------------------------------------------------------------
-- Every Interleaving
------------------------------------------------------------

/-
  The receiver has taken a beginning of the messages, the
  next ones wait, and the sender has the others. So many
  steps are left.
-/
def Piped.Pending
    (P : π → Sending π μ)
    (C : κ → Receiving κ μ)
    (last : κ)
    (left : Nat)
    (w : Piped π κ μ) : Prop :=
  ∃ (messages : List μ) (produced consumed : Nat),
    Produces P w.sender messages produced ∧
      Consumes C w.receiver (w.queue ++ messages)
        last consumed ∧
      left = produced + consumed

namespace Piped.Pending

variable {last : κ} {left : Nat} {w w' : Piped π κ μ}

/- Each step takes one of the steps that are left. -/
theorem step
    (hPending : Pending P C last left w)
    (hStep : Step P C capacity w w') :
    ∃ left', left = left' + 1 ∧
      Pending P C last left' w' := by
  rcases hPending with
    ⟨messages, produced, consumed, hProduces, hConsumes,
      rfl⟩
  cases hStep with
  | senderWorks hSender =>
      rcases hProduces.of_work hSender with
        ⟨steps, rfl, hRest⟩
      exact ⟨steps + consumed, by omega, messages, steps,
        consumed, hRest, hConsumes, rfl⟩
  | sent hSender _ _ =>
      rcases hProduces.of_send hSender with
        ⟨messages', steps, rfl, rfl, hRest⟩
      refine ⟨steps + consumed, by omega, messages', steps,
        consumed, hRest, ?_, rfl⟩
      rw [List.append_assoc]
      exact hConsumes
  | refused hSender hClosed =>
      -- a receiver that is gone has left no message
      rcases hProduces.of_send hSender with
        ⟨messages', steps, rfl, rfl, hRest⟩
      have hNone := (hConsumes.of_gone hClosed).1
      cases (List.append_eq_nil_iff.mp hNone).2
  | receiverWorks hReceiver =>
      rcases hConsumes.of_work hReceiver with
        ⟨steps, rfl, hRest⟩
      exact ⟨produced + steps, by omega, messages, produced,
        steps, hProduces, hRest, rfl⟩
  | received hReceiver =>
      rcases hConsumes.of_receive hReceiver with
        ⟨steps, rfl, hRest⟩
      exact ⟨produced + steps, by omega, messages, produced,
        steps, hProduces, hRest, rfl⟩
  | ended hReceiver hGone =>
      rcases hProduces.of_gone hGone with ⟨rfl, rfl⟩
      rcases hConsumes.of_receive hReceiver with
        ⟨steps, rfl, hRest⟩
      exact ⟨0 + steps, by omega, [], 0, steps, hProduces,
        hRest, rfl⟩

/- As long as steps are left, one of the tasks can go on. -/
theorem progress
    (hPending : Pending P C last (left + 1) w)
    (hCapacity : 0 < capacity) :
    ∃ w', Step P C capacity w w' := by
  rcases w with ⟨p, queue, k⟩
  rcases hPending with
    ⟨messages, produced, consumed, hProduces, hConsumes,
      hLeft⟩
  dsimp only at hProduces hConsumes
  cases hReceiver : C k with
  | work k' => exact ⟨_, .receiverWorks hReceiver⟩
  | gone =>
      rcases hConsumes.of_gone hReceiver with
        ⟨hNone, -, rfl⟩
      rcases List.append_eq_nil_iff.mp hNone with ⟨-, rfl⟩
      cases hProduces with
      | gone _ => omega
      | work hSender _ => exact ⟨_, .senderWorks hSender⟩
  | receive next =>
      cases queue with
      | cons m queue => exact ⟨_, .received hReceiver⟩
      | nil =>
          cases hProduces with
          | gone hSender =>
              exact ⟨_, .ended hReceiver hSender⟩
          | work hSender _ =>
              exact ⟨_, .senderWorks hSender⟩
          | send hSender _ =>
              refine ⟨_, .sent hSender hCapacity ?_⟩
              rw [hReceiver]
              nofun

/- When no steps are left, all has come to its end. -/
theorem ended
    (hPending : Pending P C last 0 w) :
    Ended P C w ∧ w.receiver = last := by
  rcases hPending with
    ⟨messages, produced, consumed, hProduces, hConsumes,
      hLeft⟩
  have hProduced : produced = 0 := by omega
  have hConsumed : consumed = 0 := by omega
  subst hProduced hConsumed
  rcases hConsumes.messages_of_zero with
    ⟨-, hLast, hReceiver⟩
  cases hProduces with
  | gone hSender =>
      exact ⟨⟨hSender, hReceiver⟩, hLast.symm⟩

/- No step is left once both tasks are gone. -/
theorem left_of_ended
    (hPending : Pending P C last left w)
    (hEnded : Ended P C w) :
    left = 0 := by
  rcases hPending with
    ⟨messages, produced, consumed, hProduces, hConsumes,
      rfl⟩
  have hProduced := (hProduces.of_gone hEnded.1).2
  have hConsumed := (hConsumes.of_gone hEnded.2).2.2
  omega

/- A run takes as many of the steps that are left. -/
theorem run
    {count : Nat}
    (hPending : Pending P C last left w)
    (hRun : Run P C capacity w count w') :
    ∃ left', left = left' + count ∧
      Pending P C last left' w' := by
  induction hRun generalizing left with
  | start => exact ⟨left, rfl, hPending⟩
  | step hStep _ ih =>
      rcases hPending.step hStep with ⟨left', rfl, hNext⟩
      rcases ih hNext with ⟨left'', rfl, hLast⟩
      exact ⟨left'', by omega, hLast⟩

/- A run that has ended has taken all messages. -/
theorem receiver_of_ended
    {count : Nat}
    (hPending : Pending P C last left w)
    (hRun : Run P C capacity w count w')
    (hEnded : Ended P C w') :
    w'.receiver = last := by
  rcases hPending.run hRun with ⟨left', -, hPending'⟩
  have hLeft := hPending'.left_of_ended hEnded
  subst hLeft
  exact hPending'.ended.2

/- The steps that are left can be taken. -/
theorem exists_run
    (hPending : Pending P C last left w)
    (hCapacity : 0 < capacity) :
    ∃ w', Run P C capacity w left w' ∧ Ended P C w' := by
  induction left generalizing w with
  | zero => exact ⟨w, .start, hPending.ended.1⟩
  | succ left ih =>
      rcases hPending.progress hCapacity with ⟨w', hStep⟩
      rcases hPending.step hStep with ⟨left', hEq, hNext⟩
      have hSame : left = left' := by omega
      subst hSame
      rcases ih hNext with ⟨w'', hRun, hEnded⟩
      exact ⟨w'', .step hStep hRun, hEnded⟩

/- No interleaving goes on forever or comes to a halt. -/
theorem run_on
    {count : Nat}
    (hPending : Pending P C last left w)
    (hRun : Run P C capacity w count w')
    (hCapacity : 0 < capacity) :
    count ≤ left ∧
      ∃ w'', Run P C capacity w' (left - count) w'' ∧
        Ended P C w'' := by
  rcases hPending.run hRun with ⟨left', rfl, hPending'⟩
  rw [Nat.add_sub_cancel]
  exact ⟨by omega, hPending'.exists_run hCapacity⟩

end Piped.Pending

end Planar

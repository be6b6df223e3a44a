import RaisinDB.Agents.LegalRuns

/-!
# What holds of every account

A lease is held under the current epoch, requests carry numbers the run has given out, a
run that has ended has no steer queued, and the mailbox never holds more completions than
there are children that have handed back.
-/

namespace RaisinDB.Agents

open List

namespace Ledger

section Sound

variable {ledger : Ledger} {kind : RunEventKind}

/-! ## Epochs -/

/-- The owner holds the lease under the current epoch, and no operation is from a later one. -/
structure Current (ledger : Ledger) : Prop where
  owned : ∀ owner, ledger.owner = some owner → owner.2 = ledger.epoch
  started : ∀ op, ledger.op = some op → op.leaseEpoch ≤ ledger.epoch

theorem Current.observe (current : Current ledger) (legal : ledger.Legal kind) :
    Current (ledger.observe kind) := by
  obtain ⟨owned, started⟩ := current
  cases kind with
  | operationStarted opId kind effectId idempotencyKey replaySafe interruptible forCallId attempt =>
    refine ⟨owned, fun op flying => ?_⟩
    have same : op.leaseEpoch = ledger.epoch := by
      simpa [Ledger.observe, note] using congrArg (Option.map OpView.leaseEpoch) flying.symm
    exact same.le
  | operationCompleted => exact ⟨owned, fun op flying => by simp [Ledger.observe, note] at flying⟩
  | operationCancelled => exact ⟨owned, fun op flying => by simp [Ledger.observe, note] at flying⟩
  | operationAbandoned => exact ⟨owned, fun op flying => by simp [Ledger.observe, note] at flying⟩
  | leaseAcquired owner epoch =>
    obtain ⟨_, next⟩ := legal
    refine ⟨fun holder held => ?_, fun op flying => ?_⟩
    · simp only [Ledger.observe, note, Option.some.injEq] at held
      exact held ▸ rfl
    · have before := started op flying
      simp only [Ledger.observe, note, next]
      omega
  | leaseTakenOver source fromEpoch owner epoch =>
    obtain ⟨_, next⟩ := legal
    refine ⟨fun holder held => ?_, fun op flying => ?_⟩
    · simp only [Ledger.observe, note, Option.some.injEq] at held
      exact held ▸ rfl
    · have before := started op flying
      simp only [Ledger.observe, note, next]
      omega
  | leaseReleased epoch =>
    obtain ⟨_, next⟩ := legal
    refine ⟨fun holder held => by simp [Ledger.observe, note] at held, fun op flying => ?_⟩
    have before := started op flying
    simp only [Ledger.observe, note, next]
    omega
  | _ => exact ⟨owned, started⟩

/-! ## Requests -/

/-- Open requests have different numbers, all of them given out. -/
structure Numbered (ledger : Ledger) : Prop where
  given : ∀ request ∈ ledger.requests, ∃ n, 1 ≤ n ∧ n ≤ ledger.counters.request ∧
    request.requestId = RequestId.nth ledger.runId n
  distinct : (ledger.requests.map PendingRequest.requestId).Nodup

/-- Fewer requests, with no number given back. -/
theorem Numbered.less (numbered : Numbered ledger) {later : Ledger}
    (fewer : later.requests.Sublist ledger.requests) (runId : later.runId = ledger.runId)
    (count : ledger.counters.request ≤ later.counters.request) : Numbered later := by
  obtain ⟨given, distinct⟩ := numbered
  refine ⟨fun request mem => ?_, distinct.sublist (fewer.map _)⟩
  obtain ⟨n, positive, below, named⟩ := given request (fewer.subset mem)
  exact ⟨n, positive, below.trans count, runId ▸ named⟩

theorem Numbered.observe (numbered : Numbered ledger) (legal : ledger.Legal kind) :
    Numbered (ledger.observe kind) := by
  cases kind with
  | requestOpened request =>
    obtain ⟨named, _⟩ := legal
    obtain ⟨given, distinct⟩ := numbered
    refine ⟨fun other mem => ?_, ?_⟩
    · rcases mem_append.mp mem with before | new
      · obtain ⟨n, positive, below, named'⟩ := given other before
        exact ⟨n, positive, Nat.le_succ_of_le below, named'⟩
      · rw [mem_singleton.mp new]
        exact ⟨ledger.counters.request + 1, Nat.succ_pos _, le_rfl, named⟩
    · have fresh : request.requestId ∉ ledger.requests.map PendingRequest.requestId := by
        intro mem
        obtain ⟨other, before, same⟩ := mem_map.mp mem
        obtain ⟨n, _, below, named'⟩ := given other before
        have equal := RequestId.nth_inj (named'.symm.trans (same.trans named))
        omega
      simpa [Ledger.observe, note, nodup_append] using
        ⟨distinct, fun other before same => fresh (mem_map.mpr ⟨other, before, same⟩)⟩
  | requestResolved requestId =>
    exact numbered.less eraseP_sublist rfl le_rfl
  | requestClosed requestId =>
    exact numbered.less eraseP_sublist rfl le_rfl
  | operationStarted =>
    refine numbered.less (Sublist.refl _) rfl ?_
    simp only [Ledger.observe, note]
    split <;> exact le_rfl
  | _ => exact numbered.less (Sublist.refl _) rfl le_rfl

/-! ## The end -/

/-- Nothing is queued once the run has ended. -/
def Ended (ledger : Ledger) : Prop := ledger.status.isTerminal = true → ledger.steers = []

theorem Ended.observe (ended : Ended ledger) (legal : ledger.Legal kind) :
    Ended (ledger.observe kind) := by
  cases kind with
  | statusChanged source target reason =>
    intro terminal
    exact (legal.2.2.1 terminal).2.2
  | steerQueued steerId =>
    intro terminal
    exact absurd (legal.2.symm.trans terminal) Bool.false_ne_true
  | steerConsumed steerId turn input =>
    intro terminal
    simp [Ledger.observe, note, ended terminal]
  | steerDiscarded steerId =>
    intro terminal
    simp [Ledger.observe, note, ended terminal]
  | _ => exact ended

theorem status_observe (legal : ledger.Legal kind) (terminal : ledger.status.isTerminal = true) :
    (ledger.observe kind).status = ledger.status := by
  cases kind with
  | statusChanged source target reason =>
    obtain ⟨same, changes, _⟩ := legal
    rw [← same] at terminal
    cases source <;> simp [legalChanges, RunStatus.isTerminal] at changes terminal
  | _ => rfl

/-- A run that has ended stays as it ended. -/
theorem status_replay {kinds : List RunEventKind} (legal : LegalRun ledger kinds)
    (terminal : ledger.status.isTerminal = true) :
    (ledger.replay kinds).status = ledger.status := by
  refine replay_invariant (fun current => current.status = ledger.status) ?_ rfl legal
  intro current kind same here
  exact (status_observe here (same ▸ terminal)).trans same

/-! ## The mailbox -/

def completions (mailbox : List MailboxItem) : Nat := mailbox.countP (·.kind == .completion)

def deliveries (children : List LinkView) : Nat := children.countP LinkView.delivered

/-- The mailbox keeps its bound because no more completions come than there are children. -/
structure Roomy (ledger : Ledger) : Prop where
  children : ledger.children.length ≤ maxChildrenPerRun
  completed : completions ledger.mailbox ≤ deliveries ledger.children
  mailbox : ledger.mailbox.length ≤ mailboxLimit

theorem length_markDelivered (child : RunId) (links : List LinkView) :
    (markDelivered child links).length = links.length := by
  induction links with
  | nil => rfl
  | cons link rest ih =>
    unfold markDelivered
    split <;> simp [ih]

theorem deliveries_markDelivered {child : RunId} {reserved : RunBudgets} {links : List LinkView}
    (found : links.find? (·.runId == child) = some ⟨child, reserved, false⟩) :
    deliveries (markDelivered child links) = deliveries links + 1 := by
  induction links with
  | nil => cases found
  | cons link rest ih =>
    unfold markDelivered
    split
    · next same =>
      rw [find?_cons_of_pos (by simpa using same)] at found
      cases found
      simp [deliveries]
    · next other =>
      rw [find?_cons_of_neg (by simpa using other)] at found
      have later := ih found
      simp only [deliveries, countP_cons] at later ⊢
      omega

theorem completions_le_makeRoom (mailbox : List MailboxItem) :
    completions (makeRoom mailbox) ≤ completions mailbox := by
  unfold makeRoom
  split
  · exact eraseP_sublist.countP_le
  · exact le_rfl

theorem length_makeRoom {mailbox : List MailboxItem} (few : completions mailbox < mailboxLimit)
    (bounded : mailbox.length ≤ mailboxLimit) : (makeRoom mailbox).length < mailboxLimit := by
  unfold makeRoom
  split
  · next full =>
    -- A full mailbox cannot hold completions only, so a message is there to go.
    have message : ∃ item ∈ mailbox, (item.kind == .message) = true := by
      by_contra none
      have all : completions mailbox = mailbox.length := by
        refine countP_eq_length.mpr fun item mem => ?_
        have other : item.kind ≠ .message := fun same =>
          none ⟨item, mem, by simp [same]⟩
        cases kind : item.kind with
        | message => exact absurd kind other
        | completion => rfl
      omega
    obtain ⟨item, mem, isMessage⟩ := message
    rw [length_eraseP_of_mem mem isMessage]
    have limit : 0 < mailboxLimit := by decide
    omega
  · next room => exact Nat.lt_of_not_le room

theorem Roomy.observe (roomy : Roomy ledger) (legal : ledger.Legal kind) :
    Roomy (ledger.observe kind) := by
  obtain ⟨children, completed, mailbox⟩ := roomy
  cases kind with
  | childSpawned child number title reserved depth =>
    obtain ⟨_, room, _⟩ := legal
    refine ⟨?_, ?_, mailbox⟩
    · simpa [Ledger.observe, note] using room
    · simpa [Ledger.observe, note, deliveries] using completed
  | childHandback child number status outcomeKind key mailNo satisfied =>
    obtain ⟨⟨reserved, found⟩, _⟩ := legal
    have more := deliveries_markDelivered found
    have delivered : deliveries (markDelivered child ledger.children) ≤ ledger.children.length :=
      countP_le_length.trans (length_markDelivered child ledger.children).le
    have limits : maxChildrenPerRun < mailboxLimit := by decide
    have fewer := completions_le_makeRoom ledger.mailbox
    refine ⟨?_, ?_, ?_⟩
    · simpa [Ledger.observe, note, length_markDelivered] using children
    · simp only [Ledger.observe, note]
      rw [more, completions, countP_append]
      simp only [completions] at fewer completed
      simp
      omega
    · have short : (makeRoom ledger.mailbox).length < mailboxLimit :=
        length_makeRoom (by omega) mailbox
      simp only [Ledger.observe, note, length_append, length_singleton]
      omega
  | mailPosted number sender key =>
    obtain ⟨_, room⟩ := legal
    refine ⟨children, ?_, ?_⟩
    · simpa [Ledger.observe, note, completions] using completed
    · simpa [Ledger.observe, note] using room
  | mailboxAcked upTo =>
    refine ⟨children, ?_, ?_⟩
    · exact (filter_sublist.countP_le).trans completed
    · exact (filter_sublist.length_le).trans mailbox
  | _ => exact ⟨children, completed, mailbox⟩

/-! ## Numbers only grow -/

/-- What a later account cannot take back. -/
structure Grows (ledger later : Ledger) : Prop where
  op : ledger.counters.op ≤ later.counters.op
  steer : ledger.counters.steer ≤ later.counters.steer
  request : ledger.counters.request ≤ later.counters.request
  epoch : ledger.epoch ≤ later.epoch
  children : ledger.children.length ≤ later.children.length

theorem grows_observe (legal : ledger.Legal kind) : Grows ledger (ledger.observe kind) := by
  cases kind with
  | operationStarted =>
    refine ⟨?_, ?_, ?_, le_rfl, le_rfl⟩ <;>
    · simp only [Ledger.observe, note]
      split <;> simp
  | steerQueued => exact ⟨le_rfl, Nat.le_succ _, le_rfl, le_rfl, le_rfl⟩
  | requestOpened => exact ⟨le_rfl, le_rfl, Nat.le_succ _, le_rfl, le_rfl⟩
  | leaseAcquired owner epoch =>
    obtain ⟨_, next⟩ := legal
    exact ⟨le_rfl, le_rfl, le_rfl, by simp [Ledger.observe, note, next], le_rfl⟩
  | leaseTakenOver source fromEpoch owner epoch =>
    obtain ⟨_, next⟩ := legal
    exact ⟨le_rfl, le_rfl, le_rfl, by simp [Ledger.observe, note, next], le_rfl⟩
  | leaseReleased epoch =>
    obtain ⟨_, next⟩ := legal
    exact ⟨le_rfl, le_rfl, le_rfl, by simp [Ledger.observe, note, next], le_rfl⟩
  | childSpawned => exact ⟨le_rfl, le_rfl, le_rfl, le_rfl, by simp [Ledger.observe, note]⟩
  | childHandback =>
    exact ⟨le_rfl, le_rfl, le_rfl, le_rfl, by simp [Ledger.observe, note, length_markDelivered]⟩
  | _ => exact ⟨le_rfl, le_rfl, le_rfl, le_rfl, le_rfl⟩

theorem Grows.trans {middle later : Ledger} (first : Grows ledger middle)
    (second : Grows middle later) : Grows ledger later :=
  ⟨first.op.trans second.op, first.steer.trans second.steer, first.request.trans second.request,
    first.epoch.trans second.epoch, first.children.trans second.children⟩

theorem grows_replay {kinds : List RunEventKind} (legal : LegalRun ledger kinds) :
    Grows ledger (ledger.replay kinds) := by
  refine replay_invariant (Grows ledger) (fun current kind before here => ?_)
    ⟨le_rfl, le_rfl, le_rfl, le_rfl, le_rfl⟩ legal
  exact before.trans (grows_observe here)

/-! Turns and checkpoints are counted by their events, in 32 bits. -/

def startsTurn : RunEventKind → Bool
  | .turnStarted .. => true
  | _ => false

def writesCheckpoint : RunEventKind → Bool
  | .checkpointWritten .. => true
  | _ => false

theorem count_observe (legal : ledger.Legal kind) :
    (ledger.observe kind).counters.turn =
        ledger.counters.turn + .ofNat ([kind].countP startsTurn) ∧
      (ledger.observe kind).counters.checkpoint =
        ledger.counters.checkpoint + .ofNat ([kind].countP writesCheckpoint) := by
  cases kind with
  | turnStarted turn cause =>
    obtain ⟨_, next⟩ := legal
    exact ⟨next, (UInt32.add_zero _).symm⟩
  | checkpointWritten number atSeq reason => exact ⟨(UInt32.add_zero _).symm, legal.1⟩
  | operationStarted =>
    simp only [Ledger.observe, note]
    split <;> exact ⟨(UInt32.add_zero _).symm, (UInt32.add_zero _).symm⟩
  | _ => exact ⟨(UInt32.add_zero _).symm, (UInt32.add_zero _).symm⟩

theorem count_replay {kinds : List RunEventKind} (legal : LegalRun ledger kinds) :
    (ledger.replay kinds).counters.turn =
        ledger.counters.turn + .ofNat (kinds.countP startsTurn) ∧
      (ledger.replay kinds).counters.checkpoint =
        ledger.counters.checkpoint + .ofNat (kinds.countP writesCheckpoint) := by
  induction kinds generalizing ledger with
  | nil => exact ⟨(UInt32.add_zero _).symm, (UInt32.add_zero _).symm⟩
  | cons kind rest ih =>
    obtain ⟨here, later⟩ := legal
    obtain ⟨turn, checkpoint⟩ := count_observe here
    obtain ⟨turns, checkpoints⟩ := ih later
    rw [replay_cons, turns, checkpoints, turn, checkpoint, UInt32.add_assoc, UInt32.add_assoc,
      ← UInt32.ofNat_add, ← UInt32.ofNat_add, ← countP_append, ← countP_append, singleton_append]
    exact ⟨rfl, rfl⟩

end Sound

/-- What holds of every account that legal events lead to. -/
structure Sound (ledger : Ledger) : Prop where
  current : Current ledger
  numbered : Numbered ledger
  ended : Ended ledger
  roomy : Roomy ledger

theorem Sound.replay {ledger : Ledger} {kinds : List RunEventKind} (sound : Sound ledger)
    (legal : LegalRun ledger kinds) : Sound (ledger.replay kinds) := by
  refine replay_invariant Sound (fun current kind before here => ?_) sound legal
  exact ⟨before.current.observe here, before.numbered.observe here, before.ended.observe here,
    before.roomy.observe here⟩

theorem sound_created (runId : RunId) : Sound (created runId) where
  current := ⟨fun _ held => (by cases held), fun _ flying => (by cases flying)⟩
  numbered := ⟨fun _ mem => absurd mem not_mem_nil, nodup_nil⟩
  ended := fun _ => rfl
  roomy := ⟨Nat.zero_le _, Nat.zero_le _, Nat.zero_le _⟩

end Ledger

end RaisinDB.Agents

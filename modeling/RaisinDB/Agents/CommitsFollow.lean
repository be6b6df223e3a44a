import RaisinDB.Agents.Follows

/-!
# Every commit follows its log

The transitions between a run and its tree, the answers of a reducer, and with them
everything the service commits.
-/

namespace RaisinDB.Agents

open List
open RaisinDB.Foundation (Value ok_of_bind ok_of_map)

variable {record : AgentRunRecord} {now : Nat} {transition : Transition}

theorem toOption_some {α ε : Type} {result : Except ε α} {value : α}
    (some' : result.toOption = some value) : result = .ok value := by
  cases result with
  | error refused => cases some'
  | ok other =>
    cases some'
    rfl

/-! ## Spawning -/

section Spawning

variable {start : AgentRunRecord} {tx : Tx} {received : Option Receipt}

theorem selectContext_ok {context : ContextSelection} {selected : Tx × Value}
    (ok : selectContext tx context = .ok selected) :
    selected.1 = tx ∨ selected.1 = tx.writeCheckpoint .delegation none := by
  cases context with
  | none =>
    cases ok
    exact .inl rfl
  | recentTurns turns items =>
    simp only [selectContext] at ok
    split at ok
    · cases ok
    · unfold bounded at ok
      split at ok
      · cases ok
      · cases ok
        exact .inl rfl
  | snapshot checkpointNo data =>
    simp only [selectContext] at ok
    obtain ⟨current, named, ok⟩ := ok_of_bind ok
    have chosen : selected.1 = current.1 := by
      simp only [bind, Except.bind, bounded] at ok
      split at ok
      · cases ok
      · next notRefused =>
        split at notRefused
        · cases notRefused
        · cases ok
          rfl
    rw [chosen]
    unfold namedCheckpoint at named
    split at named
    · split at named
      · cases named
        exact .inl rfl
      · cases named
    · cases named
      exact .inr rfl

theorem selectContext_agrees {context : ContextSelection} {selected : Tx × Value}
    (agrees : Agrees start tx received) (ok : selectContext tx context = .ok selected) :
    Agrees start selected.1 received := by
  rcases selectContext_ok ok with same | written
  · rw [same]
    exact agrees
  · rw [written]
    exact agrees.writeCheckpoint .delegation none

theorem linkChild_agrees (agrees : Agrees start tx received) (parent : AgentRunRecord)
    (req : SpawnChild) (childId : RunId) (budgets : RunBudgets)
    (room : tx.record.children.length < maxChildrenPerRun)
    (live : tx.record.state.isTerminal = false) :
    Agrees start (linkChild (countChild tx) parent req childId budgets) received := by
  have counted : Tracks start (countChild tx) (tx.account received) :=
    Tracks.same agrees rfl rfl id
  have pushed := counted.push
    (.childSpawned childId (tx.record.counters.child + 1) req.objective.title
      (reservation parent budgets) (parent.depth + 1))
    ⟨rfl, by simpa [Tx.account, ledgerOf, linkViews] using room,
      (RunState.status_isTerminal _).trans live⟩
  have linked : Tracks start (linkChild (countChild tx) parent req childId budgets) _ :=
    pushed.same rfl rfl id
  refine linked.agrees ?_ ⟨rfl, rfl, rfl, rfl, rfl⟩ rfl
  exact ⟨rfl, rfl, rfl, rfl, rfl,
    by simp [Ledger.observe, Ledger.note, Tx.account, ledgerOf, linkViews, linkChild, Tx.push,
      countChild, ChildLink.view], rfl, rfl, rfl, rfl⟩

end Spawning

theorem applySpawn_ok {parent : AgentRunRecord} {req : SpawnChild} {childId : RunId}
    {transition : Transition} {plan : ChildPlan}
    (ok : applySpawn parent req childId now = .ok (transition, plan)) :
    ∃ budgets config selected, admitChild parent req = .ok () ∧
      childBudgets parent req (spare parent now) = .ok budgets ∧
      executorConfig parent req = .ok config ∧
      selectContext (Tx.new parent now) req.objective.context = .ok selected ∧
      transition = (linkChild (countChild selected.1) parent req childId budgets).finish ∧
      plan = childPlan (countChild selected.1) parent req childId budgets config selected.2 := by
  unfold applySpawn at ok
  obtain ⟨_, admitted, ok⟩ := ok_of_bind ok
  obtain ⟨budgets, lent, ok⟩ := ok_of_bind ok
  obtain ⟨config, configured, ok⟩ := ok_of_bind ok
  obtain ⟨selected, selects, ok⟩ := ok_of_bind ok
  cases ok
  exact ⟨budgets, config, selected, admitted, lent, configured, selects, rfl, rfl⟩

theorem admitChild_ok {parent : AgentRunRecord} {req : SpawnChild}
    (admitted : admitChild parent req = .ok ()) :
    parent.state.isTerminal = false ∧ parent.state.status ≠ .cancelling ∧
      parent.children.length < maxChildrenPerRun ∧
      parent.depth + 1 ≤ min (parent.budgets.maxDepth.getD maxDepth) maxDepth := by
  unfold admitChild at admitted
  simp only [] at admitted
  split at admitted
  · cases admitted
  · next live =>
    split at admitted
    · cases admitted
    · split at admitted
      · cases admitted
      · next few =>
        split at admitted
        · cases admitted
        · split at admitted
          · cases admitted
          · next shallow =>
            refine ⟨?_, fun stopping => live (.inr stopping), ?_, Nat.le_of_not_lt shallow⟩
            · exact Bool.eq_false_iff.mpr fun ended => live (.inl ended)
            · exact Nat.lt_of_not_le fun full => few (.inl full)

theorem applySpawn_follows {req : SpawnChild} {childId : RunId} {plan : ChildPlan}
    (ok : applySpawn record req childId now = .ok (transition, plan)) :
    Follows record transition := by
  obtain ⟨budgets, config, selected, admitted, _, _, selects, shape, _⟩ := applySpawn_ok ok
  obtain ⟨live, _, room, _⟩ := admitChild_ok admitted
  have context := selectContext_agrees (Agrees.new record now) selects
  have same : selected.1.record.children = record.children ∧
      selected.1.record.state = record.state := by
    rcases selectContext_ok selects with unchanged | written
    · rw [unchanged]
      exact ⟨rfl, rfl⟩
    · rw [written]
      exact ⟨rfl, rfl⟩
  rw [shape]
  exact (linkChild_agrees context record req childId budgets (same.1 ▸ room) (same.2 ▸ live)).finish

/-! ## Hand-backs and mail -/

theorem linkViews_updateLink (child : RunId) (change : ChildLink → ChildLink)
    (children : List ChildLink) (keeps : ∀ link, (change link).view = link.view) :
    linkViews (updateLink child change children) = linkViews children := by
  induction children with
  | nil => rfl
  | cons link rest ih =>
    unfold updateLink
    split
    · simp [linkViews, keeps link]
    · simpa [linkViews] using ih

theorem linkViews_deliver (child : RunId) (status : RunStatus) (key : String) (spent : RunUsage)
    (children : List ChildLink) :
    linkViews (updateLink child (deliverLink status key spent) children) =
      Ledger.markDelivered child (linkViews children) := by
  induction children with
  | nil => rfl
  | cons link rest ih =>
    unfold updateLink
    by_cases here : link.runId = child
    · simp [linkViews, Ledger.markDelivered, here, deliverLink, ChildLink.view]
    · simpa [linkViews, Ledger.markDelivered, here, ChildLink.view] using ih

/-- The record once the usage of a child is charged to it. -/
def chargedWith (record child : AgentRunRecord) : AgentRunRecord :=
  { record with usage := chargeChild record.usage child.usage.treeTotal }

theorem landed_agrees {child : AgentRunRecord} {link : ChildLink} {handback : Handback}
    (found : record.children.find? (·.runId == child.runId) = some link)
    (undelivered : link.delivered = false) :
    Agrees (chargedWith record child) (landed record child link handback now) none := by
  have awaited : (ledgerOf (chargedWith record child)).Awaited child.runId := by
    have named : link.runId = child.runId := by simpa using find?_some found
    refine ⟨link.reserved, ?_⟩
    have view := linkViews_find? record.children child.runId
    rw [found, Option.map_some, ChildLink.view, named, undelivered] at view
    exact view
  have begun : Tracks (chargedWith record child) (Tx.new (chargedWith record child) now) _ :=
    Agrees.new (chargedWith record child) now
  have pushed : Tracks (chargedWith record child) (landed record child link handback now) _ :=
    begun.event
      (.childHandback child.runId link.childNo handback.status handback.outcomeKind
        (handbackKey child.runId) (record.counters.mail + 1) handback.satisfied)
      ⟨awaited, rfl, rfl⟩ rfl rfl id
  refine pushed.agrees ?_ ⟨rfl, rfl, rfl, rfl, rfl⟩ rfl
  refine ⟨rfl, rfl, rfl, rfl, rfl, ?_, rfl, rfl, rfl, rfl⟩
  exact (linkViews_deliver _ _ _ _ _).symm

theorem applyHandback_follows {child : AgentRunRecord} {handback : Handback}
    (some : applyHandback record child handback now = some transition) :
    Follows (chargedWith record child) transition := by
  unfold applyHandback at some
  split at some
  · cases some
  · next link found =>
    split at some
    · cases some
    · next undelivered =>
      have lands : Agrees (chargedWith record child) (landed record child link handback now) none :=
        landed_agrees found (Bool.eq_false_iff.mpr undelivered)
      cases some
      split
      · exact lands.finish
      · exact (lands.resolveChildWaits _ _ _).finish

theorem applyHandbackDelivered_follows
    (some : applyHandbackDelivered record now = some transition) : Follows record transition := by
  unfold applyHandbackDelivered at some
  split at some
  · next delegation parent delegated _ =>
    split at some
    · cases some
    · cases some
      refine Agrees.finish ?_
      refine Agrees.quiet ?_ (.handbackDelivered parent) trivial rfl
      refine (Agrees.new record now).same rfl ?_ rfl id
      simp [Tx.origin, originOf, Tx.new, delegated]
  · cases some

theorem applyPostToParent_follows {sender : RunId} {message : Value} {messageId : String}
    (ok : applyPostToParent record sender message messageId now = .ok transition) :
    Follows record transition := by
  unfold applyPostToParent at ok
  split at ok
  · cases ok
  · split at ok
    · cases ok
    · split at ok
      · cases ok
      · next room =>
        cases ok
        have pushed := Tracks.push (Agrees.new record now)
          (.mailPosted (record.counters.mail + 1) sender (mailKey sender messageId))
          ⟨rfl, Nat.lt_of_not_le room⟩
        refine Agrees.finish (pushed.agreesWith rfl rfl id ?_ ?_ rfl rfl)
        · exact ⟨rfl, rfl, rfl, rfl, rfl, rfl, rfl, rfl, rfl, rfl⟩
        · exact ⟨rfl, rfl, rfl, rfl, rfl⟩

theorem postToParent_ok {sender : RunId} {message : Value} {messageId : String}
    (some : (postToParent record sender message messageId now).toOption.join = some transition) :
    applyPostToParent record sender message messageId now = .ok transition := by
  unfold postToParent at some
  split at some
  · cases some
  · obtain ⟨found, kept, same⟩ := Option.bind_eq_some_iff.mp some
    obtain ⟨post, posted, rfl⟩ := ok_of_map (toOption_some kept)
    cases same
    exact posted

theorem applyAck_follows {upTo : Nat} (some : applyAck record upTo now = some transition) :
    Follows record transition := by
  unfold applyAck at some
  split at some
  · cases some
    have kept : Tracks record
        { Tx.new record now with
          record := { record with mailbox := record.mailbox.filter (upTo < ·.mailNo) } }
        (ledgerOf record) := Tracks.same (Agrees.new record now) rfl rfl id
    exact ((kept.push (.mailboxAcked upTo) trivial).agrees
      ⟨rfl, rfl, rfl, rfl, rfl, rfl, rfl, rfl, rfl, rfl⟩ ⟨rfl, rfl, rfl, rfl, rfl⟩ rfl).finish
  · cases some

theorem applyChildControlled_follows (child : RunId) (action : String) (controlId : ControlId)
    (ack : String) :
    Follows record (applyChildControlled record child action controlId ack now) := by
  refine Agrees.finish ?_
  refine Agrees.quiet ?_ (.childControlled child action controlId ack) trivial rfl
  refine (Agrees.new record now).same rfl rfl ?_ id
  have views := linkViews_updateLink child
    (fun link =>
      if link.isLive && action == "interrupt" then { link with status := .cancelling } else link)
    record.children (by intro link; split <;> rfl)
  simp only [ledgerOf, Tx.new, views]

theorem applyChildStatus_follows {child : RunId} {status : RunStatus}
    (some : applyChildStatus record child status now = some transition) :
    Follows record transition := by
  unfold applyChildStatus at some
  split at some
  · cases some
  · split at some
    · cases some
    · cases some
      refine Agrees.finish ?_
      refine (Agrees.new record now).same rfl rfl ?_ id
      have views := linkViews_updateLink child (fun link => { link with status := status })
        record.children (fun _ => rfl)
      simp only [ledgerOf, Tx.new, views]

theorem applyWaiterNotified_follows (some : applyWaiterNotified record now = some transition) :
    Follows record transition := by
  unfold applyWaiterNotified at some
  split at some
  · cases some
  · next waiter _ =>
    split at some
    · cases some
    · cases some
      refine Agrees.finish ?_
      refine Agrees.quiet ?_ (.waiterNotified waiter.kind waiter.target) trivial rfl
      exact (Agrees.new record now).same rfl rfl rfl id

/-! ## Reducers -/

section Effects

variable {start : AgentRunRecord} {tx next : Tx} {received : Option Receipt} {lease : Lease}
  {requests : List PendingRequest}

/-- A binding may change as long as the state and the inbox do not move. -/
theorem inbox_map (change : DomainBinding → DomainBinding)
    (still : ∀ binding, (change binding).inbox = binding.inbox) {domain : Option DomainBinding} :
    (domain.map change).map DomainBinding.inbox = domain.map DomainBinding.inbox := by
  cases domain with
  | none => rfl
  | some binding => exact congrArg some (still binding)

theorem origin_of_inbox {tx tx' : Tx}
    (same : tx'.origin = { tx.origin with
      inbox := tx'.record.domain.map DomainBinding.inbox })
    (inbox : tx'.record.domain.map DomainBinding.inbox =
      tx.record.domain.map DomainBinding.inbox) : tx'.origin = tx.origin := by
  rw [same, inbox]
  rfl

theorem originOf_with_domain (record : AgentRunRecord) {domain : Option DomainBinding}
    (inbox : domain.map DomainBinding.inbox = record.domain.map DomainBinding.inbox) :
    originOf { record with domain := domain } = originOf record := by
  simp only [originOf, inbox]

theorem startDenied_agrees {spec : OperationSpec} {tool : String}
    (agrees : Agrees start tx none) (ok : startDenied tx spec tool = .ok next) :
    Agrees start next none := by
  unfold startDenied at ok
  split at ok
  · cases ok
  · next started op begun =>
    simp only [Except.ok.injEq] at ok
    subst ok
    obtain ⟨lease, answered, _, _, _, _, shape⟩ := beginIn_ok begun
    have state : started.record.state = .running lease (.operating op false) := by
      rw [shape.2]
      rfl
    have active : started.record.state.activeOp = some op := by simp [state]
    have done := (agrees.beginIn begun).completed active (deniedResult tool) .blocked
    have still := (completed_state started op (deniedResult tool) .blocked).trans state
    simp only [returnToIdle, still]
    exact done.setRecordState (framed_between _ _ _)
      (stated_between _ _ _ (by rw [still]; rfl) rfl rfl (by rw [still]; rfl)
        (by rw [still]; rfl)) rfl rfl

theorem startOrPark_agrees {effect : Effect} {stateRev : Nat} (agrees : Agrees start tx none)
    (ok : startOrPark tx effect stateRev = .ok next) : Agrees start next none := by
  unfold startOrPark at ok
  simp only [] at ok
  split at ok
  · cases ok
  · next spec _ =>
    split at ok
    · next begun =>
      cases ok
      exact agrees.beginIn begun
    · next exceeded refused =>
      cases ok
      obtain ⟨lease, state⟩ := beginIn_budget refused
      have parked : Agrees start (parkEffect tx effect stateRev) none :=
        agrees.same rfl (origin_of_inbox rfl (inbox_map
          (fun binding => { binding with outbox := some ⟨effect, stateRev⟩ })
          fun _ => rfl)) rfl fun _ => clean_of_live (by simp [parkEffect, state])
      exact parked.exceed state exceeded
    · exact startDenied_agrees agrees ok
    · cases ok
    · cases ok
    · cases ok

theorem withdrawOpen_agrees (agrees : Agrees start tx received) (requestId : RequestId) :
    Agrees start (withdrawOpen tx requestId) received := by
  unfold withdrawOpen
  split
  · next found =>
    obtain ⟨request, mem, named⟩ := any_eq_true.mp found
    have same : request.requestId = requestId := by simpa using named
    subst same
    exact agrees.closeRequest mem "withdrawn"
  · exact agrees

/-- Where a run stands while the effects of a response are read. -/
def Between (tx : Tx) : Prop := ∃ lease requests, tx.record.state = .running lease (.idle requests)

theorem withdrawOpen_between (between : Between tx) (requestId : RequestId) :
    Between (withdrawOpen tx requestId) := by
  obtain ⟨lease, requests, state⟩ := between
  unfold withdrawOpen
  split
  · next found =>
    refine ⟨lease, requests.eraseP (·.requestId == requestId), ?_⟩
    have present : requests.any (·.requestId == requestId) = true := by simpa [state] using found
    simp [Tx.removeRequest, Tx.push, state, present, Tx.setRecordState]
  · exact ⟨lease, requests, state⟩

/-- A reducer asks for approvals and answers, never for a child. -/
def AsksPeople (asked : Asked) : Prop :=
  ∀ req ∈ asked.requests, ∀ child, req.kind ≠ .child child

theorem applyEffect_agrees {value : Value} {now : Nat} {asked : Asked} {effect : Effect}
    {read : Tx × Asked} (agrees : Agrees start tx received)
    (ok : applyEffect value now tx asked effect = .ok read) :
    Agrees start read.1 received ∧ (Between tx → Between read.1) ∧
      (AsksPeople asked → AsksPeople read.2) := by
  have appended (req : NewRequest) (people : ∀ child, req.kind ≠ .child child)
      (asks : AsksPeople asked) : AsksPeople { asked with requests := asked.requests ++ [req] } := by
    intro other mem
    rcases mem_append.mp mem with before | new
    · exact asks other before
    · rw [mem_singleton.mp new]
      exact people
  unfold applyEffect at ok
  split at ok <;> cases ok
  case h_3 =>
    exact ⟨agrees, id, appended _ (fun _ same => by cases same)⟩
  case h_4 =>
    exact ⟨agrees, id, appended _ (fun _ same => by cases same)⟩
  case h_5 requestId _ =>
    exact ⟨withdrawOpen_agrees agrees requestId, fun between => withdrawOpen_between between _, id⟩
  case h_6 reason summary _ =>
    refine ⟨?_, id, id⟩
    exact (agrees.writeCheckpoint .domainRequested summary).same rfl rfl rfl id
  all_goals exact ⟨agrees, id, id⟩

theorem applyEffects_agrees {value : Value} {now : Nat} {effects : List Effect} {asked : Asked}
    {read : Tx × Asked} (agrees : Agrees start tx received)
    (ok : applyEffects value now tx asked effects = .ok read) :
    Agrees start read.1 received ∧ (Between tx → Between read.1) ∧
      (AsksPeople asked → AsksPeople read.2) := by
  induction effects generalizing tx asked with
  | nil =>
    cases ok
    exact ⟨agrees, id, id⟩
  | cons effect rest ih =>
    unfold applyEffects at ok
    obtain ⟨first, one, ok⟩ := ok_of_bind ok
    obtain ⟨follows, stays, asks⟩ := applyEffect_agrees agrees one
    obtain ⟨later, remains, still⟩ := ih follows ok
    exact ⟨later, fun between => remains (stays between), fun people => still (asks people)⟩

theorem openAsked_tracks {opened : List PendingRequest} (requests : List NewRequest)
    (tracks : Tracks start tx (tx.between received opened))
    (running : tx.record.state.status = .running)
    (people : ∀ req ∈ requests, ∀ child, req.kind ≠ .child child) :
    Tracks start (openAsked tx opened requests).1
        ((openAsked tx opened requests).1.between received (openAsked tx opened requests).2) ∧
      (openAsked tx opened requests).1.record.state = tx.record.state := by
  induction requests generalizing tx opened with
  | nil => exact ⟨tracks, rfl⟩
  | cons req rest ih =>
    obtain ⟨here, others⟩ := forall_mem_cons.mp people
    have later := ih (tracks.openRequest req running fun child same => absurd same (here child))
      running others
    exact ⟨later.1, later.2⟩

theorem openAsked_nil {opened : List PendingRequest} (requests : List NewRequest)
    (empty : (openAsked tx opened requests).2 = []) : opened = [] := by
  induction requests generalizing tx opened with
  | nil => exact empty
  | cons req rest ih => simpa using ih empty

theorem settleAsked_agrees {asked : Asked} {stateRev : Nat} (agrees : Agrees start tx none)
    (between : Between tx) (people : AsksPeople asked)
    (ok : settleAsked tx asked stateRev = .ok next) : Agrees start next none := by
  obtain ⟨lease, requests, state⟩ := between
  unfold settleAsked at ok
  split at ok
  · cases ok
    exact agrees.terminateIdle state _ _ _
  · split at ok
    · cases ok
    · exact startOrPark_agrees agrees ok
  · have opening := agrees.between (by simp [state])
    obtain ⟨tracks, still⟩ :=
      openAsked_tracks asked.requests opening (by simp [state]) people
    simp only [] at ok
    split at ok
    · next waiting all =>
      cases ok
      exact tracks.wait (still.trans state) (NonEmpty.fromVec_eq_some.mp all)
    · next none =>
      cases ok
      have empty := NonEmpty.fromVec_eq_none.mp none
      have nothing := openAsked_nil asked.requests empty
      rw [nothing] at tracks still empty ⊢
      generalize openAsked tx [] asked.requests = all at *
      refine tracks.agreesWith rfl rfl (fun _ => clean_of_live (by rw [still, state]; rfl))
        ⟨rfl, rfl, rfl, rfl, rfl, rfl, rfl, rfl, rfl, rfl⟩ ?_ rfl rfl
      have closed : requests = [] := by simpa [state] using nothing
      exact ⟨rfl, by simp [Tx.between, empty, still, state, closed],
        by simp [Tx.between, still, state], rfl, rfl⟩

end Effects

/-- The record once the response to an event is stored. -/
def answeredWith (record : AgentRunRecord) (binding : DomainBinding) (seq : Nat)
    (resp : ReducerResponse) (finalizeLast : Option Bool) : AgentRunRecord :=
  { record with domain := some (advanceBinding binding seq resp finalizeLast) }

theorem applyDomainResponse_ok {seq : Nat} {resp : ReducerResponse} {finalizeLast : Option Bool}
    {binding : DomainBinding} (bound : record.domain = some binding)
    (ok : applyDomainResponse record seq resp finalizeLast now = .ok transition) :
    ∃ (advanced : Tx) (read : Tx × Asked), advanced.record = answeredWith record binding seq resp finalizeLast ∧
      advanced.events = [] ∧ advanced.baseSeq = record.lastSeq ∧
      advanced.baseVersion = record.version ∧
      applyEffects resp.state now
        (advanced.push (.domainApplied resp.stateRev seq resp.effects)) {} resp.effects = .ok read ∧
      ((transition = read.1.finish ∧ (finalizeLast.isSome || read.1.record.state.isTerminal) = true) ∨
        ∃ settled, settleAsked read.1 read.2 resp.stateRev = .ok settled ∧
          finalizeLast = none ∧ transition = settled.finish) := by
  unfold applyDomainResponse at ok
  rw [bound] at ok
  simp only [] at ok
  generalize shape : ({ Tx.new record now with
      domainState :=
        if resp.stateRev ≠ binding.stateRev then
          some (resp.stateRev,
            .object [("state", resp.state), ("projection", resp.projection.getD .null)])
        else none
      record := answeredWith record binding seq resp finalizeLast } : Tx) = advanced
  have fields : advanced.record = answeredWith record binding seq resp finalizeLast ∧
      advanced.events = [] ∧ advanced.baseSeq = record.lastSeq ∧
      advanced.baseVersion = record.version := by
    subst shape
    exact ⟨rfl, rfl, rfl, rfl⟩
  cases effects : applyEffects resp.state now
      (advanced.push (.domainApplied resp.stateRev seq resp.effects)) {} resp.effects with
  | error refused =>
    subst shape
    rw [show (Tx.new record now).record = record from rfl] at ok
    simp only [bind, Except.bind, answeredWith] at ok effects
    rw [effects] at ok
    cases ok
  | ok read =>
    refine ⟨advanced, read, fields.1, fields.2.1, fields.2.2.1, fields.2.2.2, effects, ?_⟩
    subst shape
    rw [show (Tx.new record now).record = record from rfl] at ok
    simp only [bind, Except.bind, answeredWith] at ok effects
    rw [effects] at ok
    simp only [] at ok
    split at ok
    · next last =>
      cases ok
      exact .inl ⟨rfl, last⟩
    · next more =>
      have live : finalizeLast = none := by
        cases finalizeLast with
        | none => rfl
        | some last => simp at more
      split at ok
      · cases ok
      · next settled settles =>
        cases ok
        exact .inr ⟨settled, settles, live, rfl⟩

theorem applyDomainResponse_follows {seq : Nat} {resp : ReducerResponse}
    {finalizeLast : Option Bool} {binding : DomainBinding} (bound : record.domain = some binding)
    (boundary : finalizeLast = none → ∃ lease requests,
      record.state = .running lease (.idle requests))
    (ok : applyDomainResponse record seq resp finalizeLast now = .ok transition) :
    Follows (answeredWith record binding seq resp finalizeLast) transition := by
  obtain ⟨advanced, read, fields, none, based, versioned, effects, ends⟩ :=
    applyDomainResponse_ok bound ok
  have begun : Agrees (answeredWith record binding seq resp finalizeLast)
      (advanced.push (.domainApplied resp.stateRev seq resp.effects)) Option.none := by
    refine Agrees.quiet ?_ (.domainApplied resp.stateRev seq resp.effects) trivial rfl
    refine (Agrees.new _ now).same none ?_ (by rw [fields]; rfl) fun clean => by rwa [fields]
    rw [Tx.origin, fields, based, versioned]
    rfl
  obtain ⟨follows, stays, asks⟩ := applyEffects_agrees begun effects
  rcases ends with ⟨done, _⟩ | ⟨settled, settles, live, done⟩
  · rw [done]
    exact follows.finish
  · have between : Between (advanced.push (.domainApplied resp.stateRev seq resp.effects)) := by
      obtain ⟨lease, requests, state⟩ := boundary live
      refine ⟨lease, requests, ?_⟩
      have same : advanced.record.state = record.state := by rw [fields]; rfl
      exact same.trans state
    have people : AsksPeople {} := fun _ mem => absurd mem not_mem_nil
    rw [done]
    exact (settleAsked_agrees follows (stays between) (asks people) settles).finish

/-! ## What the service commits -/

section Service

variable {service : Service} {run : StoredRun}

/-- The record a transition may be said to start from.  It is the loaded one but for the budgets that
a resume raised, the usage of a child that has handed back, and how far a reducer has read. -/
inductive Adjusted (service : Service) (run : StoredRun) (record : AgentRunRecord) :
    Action → AgentRunRecord → Prop where
  | same (action : Action) : Adjusted service run record action record
  | raised (cmd : ControlCommand) (system : Bool) :
      Adjusted service run record (.control cmd system)
        { record with budgets := cmd.kind.budgetsAfter record.budgets }
  | charged (child : AgentRunRecord) :
      Adjusted service run record (.handback child) (chargedWith record child)
  | answered (fence : LeaseFence) (reducer : Reducer) {binding : DomainBinding} {seq : Nat}
      {event : ReducerEvent} {resp : ReducerResponse} (bound : record.domain = some binding)
      (next : scanDeliverable run.log binding.deliveredSeq run.result = some (seq, event))
      (reply : service.callReducer run record binding reducer event = .ok resp) :
      Adjusted service run record (.domainStep fence reducer)
        (answeredWith record binding seq resp none)
  | finalized (reducer : Reducer) {binding : DomainBinding} {seq : Nat} {event : ReducerEvent}
      {resp : ReducerResponse} (bound : record.domain = some binding)
      (next : scanDeliverable run.log binding.deliveredSeq run.result = some (seq, event))
      (reply : service.callReducer run record binding reducer event = .ok resp) (last : Bool) :
      Adjusted service run record (.finalizeDomain reducer)
        (answeredWith record binding seq resp (some last))
  | marked (reducer : Reducer) {binding : DomainBinding} (bound : record.domain = some binding)
      (nothing : scanDeliverable run.log binding.deliveredSeq run.result = none) :
      Adjusted service run record (.finalizeDomain reducer)
        { record with domain := some { binding with finalized := true } }
  | skipped (reducer : Reducer) {binding : DomainBinding} {seq : Nat} {event : ReducerEvent}
      {failed : ReducerCallError} (bound : record.domain = some binding)
      (next : scanDeliverable run.log binding.deliveredSeq run.result = some (seq, event))
      (reply : service.callReducer run record binding reducer event = .error failed) (last : Bool) :
      Adjusted service run record (.finalizeDomain reducer)
        { record with domain := some { binding with deliveredSeq := seq, finalized := last } }

/-- The account is the same. -/
theorem Adjusted.ledgerOf {action : Action} {start : AgentRunRecord}
    (adjusted : Adjusted service run record action start) :
    Agents.ledgerOf start = Agents.ledgerOf record ∧ start.version = record.version ∧
      start.lastSeq = record.lastSeq := by
  cases adjusted <;> exact ⟨rfl, rfl, rfl⟩

theorem answerTransition_follows {seq : Nat} {binding : DomainBinding}
    {answer : Except ReducerCallError ReducerResponse} (bound : record.domain = some binding)
    (boundary : ∃ lease requests, record.state = .running lease (.idle requests))
    (ok : Service.answerTransition record seq now answer = .ok transition) :
    Follows record transition ∨
      ∃ resp, answer = .ok resp ∧ Follows (answeredWith record binding seq resp none) transition := by
  unfold Service.answerTransition at ok
  split at ok
  · next resp =>
    split at ok
    · next applied =>
      cases ok
      exact .inr ⟨resp, rfl, applyDomainResponse_follows bound (fun _ => boundary) applied⟩
    · exact .inl (applyTerminal_follows ok)
  · exact .inl (applyReducerPause_follows ok)
  · next hash =>
    obtain ⟨pause, paused, ok⟩ := ok_of_bind ok
    cases ok
    have follows := applyReducerPause_follows paused
    refine .inl ⟨follows.legal, follows.replays, follows.expected, ?_, ?_⟩
    · exact (originOf_with_domain pause.record (inbox_map
        (fun binding => { binding with pendingArtifactHash := some hash })
        fun _ => rfl)).trans follows.origin
    · intro clean ended
      have before := follows.clean clean ended
      refine ⟨before.1, ?_⟩
      rw [← before.2]
      exact Option.all_map
  · exact .inl (applyTerminal_follows ok)
  · exact .inl (applyTerminal_follows ok)

theorem startOutbox_follows {parked : PendingEffect}
    (ok : Service.startOutbox record parked now = .ok transition) : Follows record transition := by
  unfold Service.startOutbox at ok
  simp only [] at ok
  have begun : Agrees record { Tx.new record now with record := Service.emptyOutbox record } none :=
    (Agrees.new record now).same rfl (originOf_with_domain record (inbox_map
      (fun binding => { binding with outbox := none }) fun _ => rfl)) rfl
      fun clean ended => ⟨(clean ended).1,
        by cases bound : record.domain <;> simp [Service.emptyOutbox, bound]⟩
  obtain ⟨next, started, ok⟩ := ok_of_bind ok
  cases ok
  exact (startOrPark_agrees begun started).finish

theorem domainStep_follows {reducer : Reducer} (fence : LeaseFence)
    (some : service.domainStep run record reducer now = some transition) :
    ∃ start, Adjusted service run record (.domainStep fence reducer) start ∧
      Follows start transition := by
  unfold Service.domainStep at some
  split at some
  · next lease requests binding state bound =>
    split at some
    · next parked _ =>
      exact ⟨record, .same _, startOutbox_follows (toOption_some some)⟩
    · split at some
      · cases some
      · next seq event next =>
        rcases answerTransition_follows bound ⟨lease, requests, state⟩ (toOption_some some)
          with follows | ⟨resp, reply, follows⟩
        · exact ⟨record, .same _, follows⟩
        · exact ⟨_, .answered fence reducer bound next reply, follows⟩
  · cases some

theorem finalizeStep_follows {reducer : Reducer} {stateRev : Nat}
    (some' : service.finalizeStep run record reducer now = some (stateRev, transition)) :
    ∃ start, Adjusted service run record (.finalizeDomain reducer) start ∧
      Follows start transition := by
  unfold Service.finalizeStep at some'
  split at some'
  · cases some'
  · next binding bound =>
    split at some'
    · cases some'
    · simp only [] at some'
      have marked (domain : DomainBinding) :
          Follows { record with domain := some domain }
            { Tx.new record now with record := { record with domain := some domain } }.finish := by
        refine Agrees.finish ?_
        exact (Agrees.new { record with domain := some domain } now).same rfl rfl rfl id
      split at some'
      · next nothing =>
        cases some'
        exact ⟨_, .marked reducer bound nothing, marked _⟩
      · next seq event next =>
        split at some'
        · next resp reply =>
          split at some'
          · next applied =>
            cases some'
            exact ⟨_, .finalized reducer bound next reply _,
              applyDomainResponse_follows bound (fun none => by cases none) applied⟩
          · cases some'
        · next failed reply =>
          cases some'
          exact ⟨_, .skipped reducer bound next reply _, marked _⟩

theorem fenced_some {fence : LeaseFence} {found : Option Transition} {proof : Fence}
    (some' : Service.fenced fence found = some (proof, transition)) :
    proof = .lease fence ∧ found = some transition := by
  cases found with
  | none => cases some'
  | some other =>
    cases some'
    exact ⟨rfl, rfl⟩

theorem unfenced_some {found : Option Transition} {proof : Fence}
    (some' : Service.unfenced found = some (proof, transition)) :
    proof = .none ∧ found = some transition := by
  cases found with
  | none => cases some'
  | some other =>
    cases some'
    exact ⟨rfl, rfl⟩

theorem submitControl_follows {cmd : ControlCommand} {system : Bool}
    (some : service.submitControl run record cmd system now = some transition) :
    ∃ start, Adjusted service run record (.control cmd system) start ∧
      Follows start transition := by
  unfold Service.submitControl at some
  split at some
  · split at some
    · cases some
    · cases some
      exact ⟨record, .same _, logRejection_follows cmd _⟩
  · cases some
    obtain ⟨budgets, rfl | rfl, follows⟩ := applyControl_follows
      service.payloadDigest cmd (authorize service.capabilityHash record cmd.issuedBy system)
    · exact ⟨record, .same _, follows⟩
    · exact ⟨_, .raised cmd system, follows⟩

theorem deliverExternal_ok {key deliveryId : String} {envelope : Value}
    (some : service.deliverExternal run record key deliveryId envelope now = some transition) :
    ∃ digest, (applyDelivery record key deliveryId envelope digest now).1 = transition := by
  unfold Service.deliverExternal at some
  split at some
  · cases some
  · exact ⟨_, Option.some.inj some⟩

theorem spawnChild_ok {req : SpawnChild} {childId : RunId} {actor : ActorRef} {system : Bool}
    (some' : service.spawnChild record req childId actor system now = some transition) :
    ∃ plan, applySpawn record req childId now = .ok (transition, plan) := by
  unfold Service.spawnChild at some'
  split at some'
  · cases some'
  · split at some'
    · cases some'
    · split at some'
      · next plan spawned =>
        cases some'
        exact ⟨plan, spawned⟩
      · cases some'

theorem landHandback_ok {child : AgentRunRecord}
    (some' : Service.landHandback record child now = some transition) :
    ∃ handback, buildHandback child = some handback ∧
      applyHandback record child handback now = some transition := by
  unfold Service.landHandback at some'
  cases built : buildHandback child with
  | none => rw [built] at some'; cases some'
  | some handback => exact ⟨handback, rfl, by rw [built] at some'; exact some'⟩

section Computed

variable {fence : Fence}

theorem transitionOf_writeCheckpoint {write : CheckpointWrite}
    (computed : service.transitionOf run record now (.writeCheckpoint write) =
      some (fence, transition)) : Service.structuredCheckpoint record write now = transition := by
  simp only [Service.transitionOf] at computed
  split at computed
  · exact congrArg Prod.snd (Option.some.inj computed)
  · cases computed

theorem transitionOf_takeover {owner : String}
    (computed : service.transitionOf run record now (.takeover owner) = some (fence, transition)) :
    record.state.lease.any (·.expiresAtMs ≤ now) = true ∧
      ∃ takeover, applyTakeover record owner now service.leaseTtlMs = .ok takeover ∧
        takeover.transition = transition := by
  simp only [Service.transitionOf] at computed
  split at computed
  · next expired =>
    obtain ⟨takeover, taken, same⟩ := Option.map_eq_some_iff.mp (unfenced_some computed).2
    exact ⟨expired, takeover, toOption_some taken, same⟩
  · cases computed

theorem transitionOf_finalizeDomain {reducer : Reducer}
    (computed : service.transitionOf run record now (.finalizeDomain reducer) =
      some (fence, transition)) :
    ∃ stateRev, service.finalizeStep run record reducer now = some (stateRev, transition) := by
  obtain ⟨⟨stateRev, _⟩, step, same⟩ := Option.map_eq_some_iff.mp computed
  obtain ⟨_, rfl⟩ := Prod.mk.inj same
  exact ⟨stateRev, step⟩

end Computed

/-- Whatever a call commits follows the log. -/
theorem transitionOf_follows {action : Action} {fence : Fence}
    (some' : service.transitionOf run record now action = some (fence, transition)) :
    ∃ start, Adjusted service run record action start ∧ Follows start transition := by
  have plain (follows : Follows record transition) :
      ∃ start, Adjusted service run record action start ∧ Follows start transition :=
    ⟨record, .same action, follows⟩
  cases action with
  | acquire owner => exact plain (applyAcquire_follows (toOption_some (unfenced_some some').2))
  | renew claim => exact plain (applyRenew_follows (toOption_some (fenced_some some').2))
  | begin claim spec => exact plain (beginOperation_follows (fenced_some some').2)
  | finish claim opId result =>
    exact plain (applyFinish_follows (toOption_some (fenced_some some').2))
  | release claim wake => exact plain (applyRelease_follows (toOption_some (fenced_some some').2))
  | consumeSteers claim => exact plain (applyConsumeSteers_follows (fenced_some some').2)
  | wait claim requests => exact plain (applyWait_follows (toOption_some (fenced_some some').2))
  | complete claim status outcome reason =>
    exact plain (applyTerminal_follows (toOption_some (fenced_some some').2))
  | checkpoint claim reason summary =>
    have written := (fenced_some some').2
    cases written
    exact plain (applyCheckpoint_follows reason summary)
  | writeCheckpoint write =>
    obtain rfl := transitionOf_writeCheckpoint some'
    exact plain (structuredCheckpoint_follows write)
  | takeover owner =>
    obtain ⟨_, takeover, taken, rfl⟩ := transitionOf_takeover some'
    exact plain (applyTakeover_follows taken)
  | expireRequests => exact plain (applyExpireRequests_follows (unfenced_some some').2)
  | deliver key deliveryId envelope =>
    obtain ⟨digest, rfl⟩ := deliverExternal_ok (unfenced_some some').2
    exact plain (applyDelivery_follows key deliveryId envelope digest)
  | control cmd system => exact submitControl_follows (unfenced_some some').2
  | logRejection cmd =>
    have logged := (unfenced_some some').2
    cases logged
    exact plain (logRejection_follows cmd _)
  | spawn req childId actor system =>
    obtain ⟨plan, spawned⟩ := spawnChild_ok (unfenced_some some').2
    exact plain (applySpawn_follows spawned)
  | handback child =>
    obtain ⟨handback, _, lands⟩ := landHandback_ok (unfenced_some some').2
    exact ⟨_, .charged child, applyHandback_follows lands⟩
  | handbackDelivered => exact plain (applyHandbackDelivered_follows (unfenced_some some').2)
  | post sender message messageId =>
    exact plain (applyPostToParent_follows (postToParent_ok (unfenced_some some').2))
  | ack upTo actor system =>
    simp only [Service.transitionOf] at some'
    split at some'
    · exact plain (applyAck_follows (unfenced_some some').2)
    · cases some'
  | childControlled child action controlId ack =>
    have noted := (unfenced_some some').2
    cases noted
    exact plain (applyChildControlled_follows child action controlId ack)
  | childStatus child status => exact plain (applyChildStatus_follows (unfenced_some some').2)
  | waiterNotified => exact plain (applyWaiterNotified_follows (unfenced_some some').2)
  | domainStep claim reducer => exact domainStep_follows claim (fenced_some some').2
  | finalizeDomain reducer =>
    obtain ⟨stateRev, step⟩ := transitionOf_finalizeDomain some'
    exact finalizeStep_follows step

end Service

end RaisinDB.Agents

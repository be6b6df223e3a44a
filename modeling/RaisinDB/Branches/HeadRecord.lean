import RaisinDB.Branches.Divergence
import RaisinDB.Foundation.Machine

/-!
# Writers of one branch record

A commit and an update of the head take the lock of the branch record, read the
record and write it before they release the lock.  A create takes no lock: it reads
the head it forks from, looks whether the record exists and then writes a record of
its own.  Every access is a step, and the steps of all calls interleave.
-/

namespace RaisinDB.Branches

open RaisinDB.Clock RaisinDB.Foundation RaisinDB.Replication List

/-! ## Calls -/

/-- The branch whose head a create forks from when it is given no revision. -/
inductive ForkSource where
  | unnamed
  | itself
  | another
  deriving DecidableEq

structure CreateBranchOptions where
  source : ForkSource
  fromRevision : Option HLC
  isProtected : Bool
  deriving DecidableEq

/-- A call that writes the head under the lock. -/
inductive HeadCall where
  | writeBatchWithHead (newHead : HLC)
  | updateHead (newHead : HLC)
  deriving DecidableEq

/-- How far a task is in its call, with what it has read so far. -/
inductive Progress where
  | idle
  | waiting (call : HeadCall)
  | locked (call : HeadCall)
  | read (call : HeadCall) (branch : Branch)
  | creating (options : CreateBranchOptions)
  | resolved (branch : Branch)
  | looked (branch : Branch) (existed : Bool)
  deriving DecidableEq

inductive HeadAnswer where
  | written (branch : Branch)
  | updated
  | created (branch : Branch) (existed : Bool)
  deriving DecidableEq

/-- The record of one branch, the holder of its lock, the tasks and the revisions of the
batches that commits have written. -/
structure HeadRecord (ι : Type) where
  record : Option Branch
  holder : Option ι
  progress : ι → Progress
  written : List HLC

/-- A task starts a call, makes its next access, or gives up before it has read the record.
An access that reads another branch is given the head of that branch; an access that writes
may fail. -/
inductive HeadEvent (ι : Type) where
  | commit (task : ι) (newHead : HLC)
  | update (task : ι) (newHead : HLC)
  | create (task : ι) (options : CreateBranchOptions)
  | proceed (task : ι) (otherHead : Option HLC) (fails : Bool)
  | giveUp (task : ι)
  deriving DecidableEq

section Tasks

variable {ι : Type} [DecidableEq ι]

namespace HeadRecord

variable (state : HeadRecord ι) (task : ι)

def setProgress (progress : Progress) : HeadRecord ι :=
  { state with progress := Function.update state.progress task progress }

/-- The task is through with its call and drops the lock it holds. -/
def release : HeadRecord ι :=
  { state.setProgress task .idle with holder := none }

def begin (progress : Progress) : HeadRecord ι :=
  match state.progress task with
  | .idle => state.setProgress task progress
  | _ => state

def lockBranchRecord (call : HeadCall) : HeadRecord ι :=
  match state.holder with
  | none => { state.setProgress task (.locked call) with holder := some task }
  | some _ => state

/-- The record is read and the guards of the call are checked against it. -/
def readRecord (branchName : String) (call : HeadCall) :
    HeadRecord ι × Option (Except BranchError HeadAnswer) :=
  match state.record with
  | none =>
      (state.release task,
        some (.error (.notFound ("Branch '" ++ branchName ++ "' not found"))))
  | some branch =>
      match call with
      | .writeBatchWithHead _ => (state.setProgress task (.read call branch), none)
      | .updateHead newHead =>
          if branch.isProtected then
            (state.release task,
              some (.error (.forbidden ("Cannot modify protected branch '" ++ branchName ++
                "': branch is protected from commits"))))
          else if newHead ≤ branch.head then (state.release task, some (.ok .updated))
          else (state.setProgress task (.read call branch), none)

/-- The write of a call that holds the lock.  A commit whose revision does not advance the
head that was read writes its batch and leaves the record as it is. -/
def writeHead (call : HeadCall) (branch : Branch) (fails : Bool) :
    HeadRecord ι × Option (Except BranchError HeadAnswer) :=
  if fails then (state.release task, some (.error .storage))
  else
    match call with
    | .writeBatchWithHead newHead =>
        if newHead ≤ branch.head then
          ({ state.release task with written := newHead :: state.written },
            some (.ok (.written branch)))
        else
          ({ state.release task with
              record := some { branch with head := newHead }
              written := newHead :: state.written },
            some (.ok (.written { branch with head := newHead })))
    | .updateHead newHead =>
        ({ state.release task with record := some { branch with head := newHead } },
          some (.ok .updated))

/-- The head that a create forks from. -/
def effectiveRevision (options : CreateBranchOptions) (otherHead : Option HLC) : Option HLC :=
  match options.fromRevision with
  | some revision => some revision
  | none =>
      match options.source with
      | .unnamed => none
      | .itself => state.record.map Branch.head
      | .another => otherHead

def createdBranch (options : CreateBranchOptions) (otherHead : Option HLC) : Branch :=
  { head := (state.effectiveRevision options otherHead).getD ⟨0, 0⟩
    isProtected := options.isProtected }

/-- The record of a create is put whatever stands there. -/
def putCreated (branch : Branch) (existed fails : Bool) :
    HeadRecord ι × Option (Except BranchError HeadAnswer) :=
  if fails then (state.setProgress task .idle, some (.error .storage))
  else
    ({ state.setProgress task .idle with record := some branch },
      some (.ok (.created branch existed)))

def proceed (branchName : String) (otherHead : Option HLC) (fails : Bool) :
    HeadRecord ι × Option (Except BranchError HeadAnswer) :=
  match state.progress task with
  | .idle => (state, none)
  | .waiting call => (state.lockBranchRecord task call, none)
  | .locked call => state.readRecord task branchName call
  | .read call branch => state.writeHead task call branch fails
  | .creating options =>
      (state.setProgress task (.resolved (state.createdBranch options otherHead)), none)
  | .resolved branch => (state.setProgress task (.looked branch state.record.isSome), none)
  | .looked branch existed => state.putCreated task branch existed fails

/-- A call that is dropped, or whose read fails, before it has read what it needs. -/
def giveUp : HeadRecord ι :=
  match state.progress task with
  | .waiting _ | .creating _ | .resolved _ => state.setProgress task .idle
  | .locked _ => state.release task
  | _ => state

/-- No call is under way and no commit has been written yet. -/
def start (record : Option Branch) : HeadRecord ι := ⟨record, none, fun _ => .idle, []⟩

end HeadRecord

def headStep (branchName : String) (state : HeadRecord ι) :
    HeadEvent ι → HeadRecord ι × Option (Except BranchError HeadAnswer)
  | .commit task newHead => (state.begin task (.waiting (.writeBatchWithHead newHead)), none)
  | .update task newHead => (state.begin task (.waiting (.updateHead newHead)), none)
  | .create task options => (state.begin task (.creating options), none)
  | .proceed task otherHead fails => state.proceed task branchName otherHead fails
  | .giveUp task => (state.giveUp task, none)

def headMachine (branchName : String) :
    Machine (HeadRecord ι) (HeadEvent ι) (Option (Except BranchError HeadAnswer)) where
  step := headStep branchName

/-! ## What the lock protects -/

end Tasks

def Progress.HoldsLock : Progress → Prop
  | .locked _ | .read _ _ => True
  | _ => False

namespace HeadRecord

section Guard

variable {ι : Type} {state : HeadRecord ι}

/-- The head stands at or above a revision. -/
def Shows (state : HeadRecord ι) (revision : HLC) : Prop :=
  ∃ branch ∈ state.record, revision ≤ branch.head

instance decidableShows (state : HeadRecord ι) (revision : HLC) :
    Decidable (state.Shows revision) :=
  inferInstanceAs (Decidable (∃ branch ∈ state.record, revision ≤ branch.head))

/-- What a record that was read under the lock still says when it is written back. -/
structure Covers (state : HeadRecord ι) (call : HeadCall) (branch : Branch) : Prop where
  current : state.Shows branch.head
  written : ∀ revision ∈ state.written, revision ≤ branch.head
  advances : ∀ newHead, call = .updateHead newHead → branch.head < newHead

/-- Every written commit is shown, the lock has the holder that uses it, and a record that was
read under the lock covers all commits until it is written back. -/
structure Guarded (state : HeadRecord ι) : Prop where
  shown : ∀ revision ∈ state.written, state.Shows revision
  held : ∀ task, (state.progress task).HoldsLock → state.holder = some task
  covered : ∀ task call branch, state.progress task = .read call branch →
    state.Covers call branch

theorem Shows.mono {revision head : HLC} (shown : state.Shows head) (below : revision ≤ head) :
    state.Shows revision := by
  obtain ⟨branch, stored, le⟩ := shown
  exact ⟨branch, stored, below.trans le⟩

theorem Guarded.start (record : Option Branch) :
    Guarded (HeadRecord.start record : HeadRecord ι) where
  shown revision mem := by cases mem
  held task holds := holds.elim
  covered task call branch reading := by cases reading

/-- When nobody holds the lock, only the written commits matter. -/
theorem Guarded.of_unlocked (free : ∀ task, ¬(state.progress task).HoldsLock)
    (shown : ∀ revision ∈ state.written, state.Shows revision) : Guarded state where
  shown := shown
  held task holds := absurd holds (free task)
  covered task call branch reading := by
    have holds := free task
    rw [reading] at holds
    exact absurd trivial holds

/-- A record that was just read covers the commits it shows. -/
theorem Guarded.covers (guarded : Guarded state) {branch : Branch} {call : HeadCall}
    (stored : state.record = some branch)
    (advances : ∀ newHead, call = .updateHead newHead → branch.head < newHead) :
    state.Covers call branch where
  current := ⟨branch, stored, le_rfl⟩
  written revision mem := by
    obtain ⟨current, same, below⟩ := guarded.shown revision mem
    rw [stored] at same
    cases same
    exact below
  advances := advances

/-- A record put over one that is not newer shows what that one has shown. -/
theorem Shows.put {revision : HLC} {branch : Branch} (shown : state.Shows revision)
    (newer : ∀ current ∈ state.record, current.head ≤ branch.head) :
    { state with record := some branch }.Shows revision := by
  obtain ⟨current, stored, below⟩ := shown
  exact ⟨branch, rfl, below.trans (newer current stored)⟩

theorem Guarded.put (guarded : Guarded state) {branch : Branch}
    (newer : ∀ current ∈ state.record, current.head ≤ branch.head) :
    Guarded { state with record := some branch } where
  shown revision mem := (guarded.shown revision mem).put newer
  held := guarded.held
  covered task call read reading := by
    have covers := guarded.covered task call read reading
    exact ⟨covers.current.put newer, covers.written, covers.advances⟩

end Guard

section Steps

variable {ι : Type} [DecidableEq ι] {state : HeadRecord ι} {task : ι}

@[simp] theorem setProgress_self (progress : Progress) :
    (state.setProgress task progress).progress task = progress := Function.update_self ..

theorem setProgress_other {other : ι} (different : other ≠ task) (progress : Progress) :
    (state.setProgress task progress).progress other = state.progress other :=
  Function.update_of_ne different ..

theorem Covers.setProgress {call : HeadCall} {branch : Branch}
    (covers : state.Covers call branch) (progress : Progress) :
    (state.setProgress task progress).Covers call branch :=
  ⟨covers.current, covers.written, covers.advances⟩

/-- A task that moves on keeps the guard when its new place does. -/
theorem Guarded.setProgress (guarded : Guarded state) {progress : Progress}
    (held : progress.HoldsLock → state.holder = some task)
    (covered : ∀ call branch, progress = .read call branch → state.Covers call branch) :
    Guarded (state.setProgress task progress) where
  shown := guarded.shown
  held other holds := by
    rcases eq_or_ne other task with rfl | different
    · rw [setProgress_self] at holds
      exact held holds
    · rw [setProgress_other different] at holds
      exact guarded.held other holds
  covered other call branch reading := by
    rcases eq_or_ne other task with rfl | different
    · rw [setProgress_self] at reading
      exact (covered call branch reading).setProgress progress
    · rw [setProgress_other different] at reading
      exact (guarded.covered other call branch reading).setProgress progress

/-- A task that moves on without the lock changes nothing the others rely on. -/
theorem Guarded.setProgress_free (guarded : Guarded state) {progress : Progress}
    (free : ¬progress.HoldsLock) : Guarded (state.setProgress task progress) := by
  refine guarded.setProgress (fun holds => absurd holds free) ?_
  rintro call branch rfl
  exact absurd trivial free

/-- After the release nobody holds the lock. -/
theorem Guarded.unlocked_release (guarded : Guarded state)
    (mine : (state.progress task).HoldsLock) (other : ι) :
    ¬((state.release task).progress other).HoldsLock := by
  intro holds
  rcases eq_or_ne other task with rfl | different
  · change ((state.setProgress other .idle).progress other).HoldsLock at holds
    rw [setProgress_self] at holds
    exact holds
  · change ((state.setProgress task .idle).progress other).HoldsLock at holds
    rw [setProgress_other different] at holds
    have same := guarded.held other holds
    rw [guarded.held task mine] at same
    exact different (Option.some.inj same).symm

theorem Guarded.release (guarded : Guarded state) (mine : (state.progress task).HoldsLock) :
    Guarded (state.release task) :=
  .of_unlocked (guarded.unlocked_release mine) guarded.shown

theorem Guarded.begin (guarded : Guarded state) {progress : Progress}
    (free : ¬progress.HoldsLock) : Guarded (state.begin task progress) := by
  rw [HeadRecord.begin]
  split
  · exact guarded.setProgress_free free
  · exact guarded

theorem Guarded.lockBranchRecord (guarded : Guarded state) (call : HeadCall) :
    Guarded (state.lockBranchRecord task call) := by
  rw [HeadRecord.lockBranchRecord]
  split
  · rename_i unheld
    -- nobody else can be holding a lock that has no holder
    have free : ∀ other, ¬(state.progress other).HoldsLock := by
      intro other holds
      have held := guarded.held other holds
      rw [unheld] at held
      cases held
    have moved : Guarded ({ state with holder := some task }.setProgress task (.locked call)) := by
      refine Guarded.setProgress ?_ (fun _ => rfl) ?_
      · exact .of_unlocked free guarded.shown
      · intro _ _ reading
        cases reading
    exact moved
  · exact guarded

theorem Guarded.readRecord (guarded : Guarded state) (branchName : String) {call : HeadCall}
    (locked : state.progress task = .locked call) :
    Guarded (state.readRecord task branchName call).1 := by
  have mine : (state.progress task).HoldsLock := by rw [locked]; trivial
  have keep : ∀ branch, state.Covers call branch →
      Guarded (state.setProgress task (.read call branch)) := by
    intro branch covers
    refine guarded.setProgress (fun _ => guarded.held task mine) ?_
    rintro _ _ ⟨⟩
    exact covers
  unfold HeadRecord.readRecord
  split
  · exact guarded.release mine
  · rename_i branch stored
    cases call with
    | writeBatchWithHead newHead =>
      exact keep branch (guarded.covers stored (by rintro _ ⟨⟩))
    | updateHead newHead =>
      dsimp only
      split_ifs with isProtected below
      · exact guarded.release mine
      · exact guarded.release mine
      · refine keep branch (guarded.covers stored ?_)
        rintro _ ⟨⟩
        exact not_le.mp below

theorem Guarded.writeHead (guarded : Guarded state) {call : HeadCall} {branch : Branch}
    (fails : Bool) (reading : state.progress task = .read call branch) :
    Guarded (state.writeHead task call branch fails).1 := by
  have mine : (state.progress task).HoldsLock := by rw [reading]; trivial
  have free := guarded.unlocked_release mine
  have covers := guarded.covered task call branch reading
  unfold HeadRecord.writeHead
  split_ifs with failed
  · exact guarded.release mine
  · cases call with
    | writeBatchWithHead newHead =>
      dsimp only
      split_ifs with below
      · exact .of_unlocked free (forall_mem_cons.mpr ⟨covers.current.mono below, guarded.shown⟩)
      · -- the commits written so far were covered by the head that is replaced
        have advanced := (not_le.mp below).le
        refine .of_unlocked free (forall_mem_cons.mpr ⟨⟨_, rfl, le_rfl⟩, ?_⟩)
        exact fun revision mem => ⟨_, rfl, (covers.written revision mem).trans advanced⟩
    | updateHead newHead =>
      have advanced := (covers.advances newHead rfl).le
      refine .of_unlocked free fun revision mem => ?_
      exact ⟨_, rfl, (covers.written revision mem).trans advanced⟩

theorem Guarded.putCreated (guarded : Guarded state) {branch : Branch} (existed fails : Bool)
    (newer : fails = false → ∀ current ∈ state.record, current.head ≤ branch.head) :
    Guarded (state.putCreated task branch existed fails).1 := by
  have moved : Guarded (state.setProgress task .idle) := guarded.setProgress_free id
  rw [HeadRecord.putCreated]
  split_ifs with failed
  · exact moved
  · exact moved.put (newer (Bool.eq_false_of_not_eq_true failed))

end Steps

end HeadRecord

/-! ## Every interleaving -/

section Runs

variable {ι : Type} [DecidableEq ι]

/-- The record that a create is about to put, when the event is that access. -/
def aboutToCreate (state : HeadRecord ι) : HeadEvent ι → Option Branch
  | .proceed task _ false =>
      match state.progress task with
      | .looked branch _ => some branch
      | _ => none
  | _ => none

/-- No record of a create is put over a record with a newer head. -/
def CreateIsNewest (state : HeadRecord ι) (event : HeadEvent ι) : Prop :=
  ∀ branch ∈ aboutToCreate state event, ∀ current ∈ state.record, current.head ≤ branch.head

instance decidableCreateIsNewest (state : HeadRecord ι) (event : HeadEvent ι) :
    Decidable (CreateIsNewest state event) :=
  inferInstanceAs (Decidable (∀ branch ∈ aboutToCreate state event, ∀ current ∈ state.record,
    current.head ≤ branch.head))

theorem guarded_step (branchName : String) (state : HeadRecord ι) (event : HeadEvent ι)
    (guarded : state.Guarded) (newest : CreateIsNewest state event) :
    ((headMachine branchName).step state event).1.Guarded := by
  cases event with
  | commit task newHead => exact guarded.begin id
  | update task newHead => exact guarded.begin id
  | create task options => exact guarded.begin id
  | proceed task otherHead fails =>
    change (state.proceed task branchName otherHead fails).1.Guarded
    rw [HeadRecord.proceed]
    split
    · exact guarded
    · exact guarded.lockBranchRecord _
    · rename_i locked
      exact guarded.readRecord branchName locked
    · rename_i reading
      exact guarded.writeHead fails reading
    · exact guarded.setProgress_free id
    · exact guarded.setProgress_free id
    · rename_i branch existed looked
      refine guarded.putCreated existed fails ?_
      rintro rfl
      exact newest branch (by rw [aboutToCreate, looked]; rfl)
  | giveUp task =>
    change (state.giveUp task).Guarded
    rw [HeadRecord.giveUp]
    split
    · exact guarded.setProgress_free id
    · exact guarded.setProgress_free id
    · exact guarded.setProgress_free id
    · rename_i locked
      exact guarded.release (by rw [locked]; trivial)
    · exact guarded

/-- In every interleaving whose creates never replace a newer record, the head stands at or above
the revision of every batch that has been written, in every state. -/
theorem head_shows_written (branchName : String) (record : Option Branch)
    (events : List (HeadEvent ι))
    (newest : ∀ transition ∈
      (headMachine branchName).transitions (HeadRecord.start record) events,
      CreateIsNewest transition.before transition.event) :
    ∀ transition ∈ (headMachine branchName).transitions (HeadRecord.start record) events,
      ∀ revision ∈ transition.after.written, transition.after.Shows revision := by
  intro transition mem
  have guarded := (headMachine branchName).transitions_invariant HeadRecord.Guarded
    CreateIsNewest (guarded_step branchName) (.start record) newest transition mem
  exact guarded.2.shown

/-- A create, a commit and an older commit that waits for the lock and reads the record after it. -/
def olderCommit : List (HeadEvent Bool) :=
  [.create true ⟨.unnamed, none, false⟩, .proceed true none false, .proceed true none false,
    .proceed true none false, .commit true (rev 7), .commit false (rev 5),
    .proceed true none false, .proceed false none false, .proceed true none false,
    .proceed true none false, .proceed false none false, .proceed false none false]

theorem older_commit_stays_shown :
    ((headMachine "docs").step ((headMachine "docs").final (HeadRecord.start none) olderCommit)
      (.proceed false none false)).1.Shows (rev 5) :=
  head_shows_written "docs" none (olderCommit ++ [.proceed false none false]) (by decide) _
    ((headMachine "docs").mem_transitions_iff.mpr
      ⟨olderCommit, .proceed false none false, [], rfl, rfl⟩) (rev 5) (by decide)

/-- A create that has looked for the record before another create wrote it puts its own record
over that of a commit. -/
theorem create_hides_commit :
    ¬∀ transition ∈ (headMachine "docs").transitions (HeadRecord.start none)
        [.create false ⟨.unnamed, none, false⟩, .proceed false none false,
          .proceed false none false,
          .create true ⟨.unnamed, none, false⟩, .proceed true none false,
          .proceed true none false, .proceed true none false,
          .commit true (rev 5), .proceed true none false, .proceed true none false,
          .proceed true none false,
          .proceed false none false],
      ∀ revision ∈ transition.after.written, transition.after.Shows revision := by
  decide

end Runs

end RaisinDB.Branches

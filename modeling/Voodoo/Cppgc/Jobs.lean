import Mathlib.Algebra.Group.Nat.Defs
import Mathlib.Data.Nat.Basic
import Voodoo.Lib.Machine

/-!
# Jobs on the calling thread

`PostJob` of the default platform has no threads, and runs a job when its handle is joined.  The loop
of `RunWorkers` counts the runs that are over as if they were workers, and compares their number with
the work that is left; where it leaves, the job is dropped with what is left of it.

* `workersLoop_eq`: the loop leaves behind the first run that leaves no more work than there were
  runs;
* `join_done_iff`: a join comes back with all of the work done if and only if there is no work left
  behind that run.

A `size_t` has `w` bits.
-/

namespace Voodoo.Cppgc

open Machine

variable {w : Nat} {σ : Type}

/-- What a `JobDelegate` answers. -/
structure Delegate where
  shouldYield : Bool
  taskId : BitVec 8
  isJoiningThread : Bool

/-- A `JobTask` with its state: `GetMaxConcurrency` reports the work that remains, and `Run` does some
of it, or adds to it. -/
structure JobTask (w : Nat) (σ : Type) where
  getMaxConcurrency : σ → BitVec w → BitVec w
  run : Delegate → σ → σ
  reports : ∀ s workerCount, getMaxConcurrency s workerCount = getMaxConcurrency s 0

inductive TaskPriority where
  | bestEffort
  | userVisible
  | userBlocking
  deriving DecidableEq

/-- `DefaultJobHandle`, with the `cancelled_` of its delegate.  The state of the task stays what it
was when the task was dropped. -/
structure JobHandle (σ : Type) where
  task : σ
  hasTask : Bool := true
  cancelled : Bool := false
  priority : TaskPriority
  running : Bool := false
  completed : Bool := false
  joining : Bool := false

section

variable (t : JobTask w σ)

/-- The loop of `RunWorkers`, for so many workers so far; no run cancels the delegate. -/
def workersLoop (cancelled joining : Bool) (workerCount : BitVec w) (s : σ) : σ :=
  if workerCount < t.getMaxConcurrency s workerCount ∧ cancelled = false then
    workersLoop cancelled joining (workerCount + 1)
      (t.run ⟨cancelled, workerCount.setWidth 8, joining⟩ s)
  else s
termination_by 2 ^ w - workerCount.toNat
decreasing_by
  rename_i hrun
  have hlt := hrun.1
  rw [BitVec.lt_def] at hlt
  have hnext : (workerCount + 1).toNat = workerCount.toNat + 1 := by
    have hone : (1 : BitVec w).toNat = 1 := by
      show 1 % 2 ^ w = 1
      exact Nat.mod_eq_of_lt (by omega)
    rw [BitVec.toNat_add_of_lt (by omega), hone]
  omega

namespace JobHandle

variable (h : JobHandle σ)

/-- `RunWorkers`.  While the task runs, `running_` is set. -/
def runWorkers : JobHandle σ :=
  if h.completed ∨ h.hasTask = false then h
  else { h with
    task := workersLoop t h.cancelled h.joining 0 h.task
    running := false
    completed := true
    hasTask := false }

/-- `NotifyConcurrencyIncrease`. -/
def notifyConcurrencyIncrease : JobHandle σ :=
  if h.joining ∧ h.running = false ∧ h.hasTask ∧ h.completed = false then h.runWorkers t else h

/-- `Join`. -/
def join : JobHandle σ := { ({ h with joining := true }).runWorkers t with joining := false }

/-- `Drop`, for `Cancel` and `CancelAndDetach`. -/
def drop : JobHandle σ :=
  { h with cancelled := true, completed := true, running := false, hasTask := false }

/-- `UpdatePriority`. -/
def updatePriority (priority : TaskPriority) : JobHandle σ :=
  if priority = h.priority then h
  else if priority ≠ .bestEffort ∧ h.completed = false ∧ h.running = false ∧ h.hasTask then
    ({ h with priority }).join t
  else { h with priority }

end JobHandle

/-- `PostJob`. -/
def postJob (priority : TaskPriority) (s : σ) : JobHandle σ :=
  if priority ≠ .bestEffort then ({ task := s, priority } : JobHandle σ).join t
  else { task := s, priority }

/-! ### Runs -/

/-- What is done with a handle; the work of its task may also change in between. -/
inductive JobOp (σ : Type) where
  | join
  | notify
  | cancel
  | updatePriority (priority : TaskPriority)
  | work (s : σ)

def JobHandle.step (h : JobHandle σ) : JobOp σ → JobHandle σ
  | .join => h.join t
  | .notify => h.notifyConcurrencyIncrease t
  | .cancel => h.drop
  | .updatePriority priority => h.updatePriority t priority
  | .work s => if h.hasTask then { h with task := s } else h

/-- The work that remains. -/
def remaining (s : σ) : Nat := (t.getMaxConcurrency s 0).toNat

/-- The task behind so many runs. -/
def afterRuns (s : σ) : Nat → σ
  | 0 => s
  | k + 1 => t.run ⟨false, BitVec.ofNat 8 k, true⟩ (afterRuns s k)

/-- The first run that leaves no more work than there were runs leaves none. -/
def Drains (s : σ) : Prop :=
  ∀ k, (∀ j < k, j < remaining t (afterRuns t s j)) → remaining t (afterRuns t s k) ≤ k →
    remaining t (afterRuns t s k) = 0

/-- The job is cancelled, or has no work left. -/
def JobHandle.Done (h : JobHandle σ) : Prop := h.cancelled = true ∨ remaining t h.task = 0

/-- A task that is still there is drained where it is run. -/
def JobHandle.Drained (h : JobHandle σ) : JobOp σ → Prop
  | .join => h.hasTask = true → Drains t h.task
  | .updatePriority priority => priority ≠ .bestEffort → h.hasTask = true → Drains t h.task
  | _ => True

end

variable {t : JobTask w σ} {h : JobHandle σ}

/-! ### The loop -/

theorem afterRuns_succ (s : σ) (k : Nat) :
    afterRuns t s (k + 1) = t.run ⟨false, BitVec.ofNat 8 k, true⟩ (afterRuns t s k) := rfl

/-- The loop leaves behind the first run that leaves no more work than there were runs. -/
theorem workersLoop_eq (s : σ) : ∃ m, workersLoop t false true 0 s = afterRuns t s m ∧
    (∀ j < m, j < remaining t (afterRuns t s j)) ∧ remaining t (afterRuns t s m) ≤ m := by
  have hloop : ∀ (workerCount : BitVec w) (k : Nat), workerCount.toNat = k →
      (∀ j < k, j < remaining t (afterRuns t s j)) →
      ∃ m, workersLoop t false true workerCount (afterRuns t s k) = afterRuns t s m ∧
        (∀ j < m, j < remaining t (afterRuns t s j)) ∧ remaining t (afterRuns t s m) ≤ m := by
    intro workerCount
    induction hleft : 2 ^ w - workerCount.toNat using Nat.strongRecOn generalizing workerCount with
    | ind n ih =>
      intro k hk hbefore
      rw [workersLoop]
      split
      · rename_i hrun
        have hlt := hrun.1
        rw [t.reports, BitVec.lt_def, hk] at hlt
        have hmax := (t.getMaxConcurrency (afterRuns t s k) 0).isLt
        have hone : (1 : BitVec w).toNat = 1 := by
          show 1 % 2 ^ w = 1
          exact Nat.mod_eq_of_lt (by omega)
        have hnext : (workerCount + 1).toNat = k + 1 := by
          rw [BitVec.toNat_add_of_lt (by omega), hone, hk]
        have hid : workerCount.setWidth 8 = BitVec.ofNat 8 k := by
          apply BitVec.eq_of_toNat_eq
          rw [BitVec.toNat_setWidth, BitVec.toNat_ofNat, hk]
        have hall : ∀ j < k + 1, j < remaining t (afterRuns t s j) := by
          intro j hj
          rcases Nat.lt_succ_iff_lt_or_eq.mp hj with hj | rfl
          · exact hbefore j hj
          · exact hlt
        rw [hid, ← afterRuns_succ]
        exact ih _ (by omega) _ rfl _ hnext hall
      · rename_i hstop
        refine ⟨k, rfl, hbefore, ?_⟩
        have hge := not_and.mp hstop
        rw [t.reports, BitVec.lt_def, hk] at hge
        exact Nat.le_of_not_lt fun hlt => hge hlt rfl
  exact hloop 0 0 (Nat.zero_mod _) nofun

theorem workersLoop_drains_iff (s : σ) :
    remaining t (workersLoop t false true 0 s) = 0 ↔ Drains t s := by
  obtain ⟨m, heq, hbefore, hle⟩ := workersLoop_eq (t := t) s
  rw [heq]
  refine ⟨fun hzero k hk hlek => ?_, fun hdrains => hdrains m hbefore hle⟩
  obtain rfl : k = m := by
    rcases Nat.lt_trichotomy k m with hlt | rfl | hlt
    · exact absurd (hbefore k hlt) (Nat.not_lt.mpr hlek)
    · rfl
    · exact absurd (hk m hlt) (Nat.not_lt.mpr hle)
  exact hzero

/-! ### The handle -/

/-- What holds between two operations. -/
structure JobHandle.Valid (t : JobTask w σ) (h : JobHandle σ) : Prop where
  not_running : h.running = false
  not_joining : h.joining = false
  completed : h.completed = !h.hasTask
  cancelled : h.hasTask = true → h.cancelled = false
  done : h.hasTask = false → h.Done t

theorem JobHandle.join_eq (hv : h.Valid t) : h.join t =
    if h.hasTask then { h with
      task := workersLoop t false true 0 h.task, completed := true, hasTask := false }
    else h := by
  have hrun := hv.not_running
  have hjoin := hv.not_joining
  have hcompleted := hv.completed
  have hcancelled := hv.cancelled
  obtain ⟨task, hasTask, cancelled, priority, running, completed, joining⟩ := h
  cases hasTask with
  | true =>
    obtain rfl : cancelled = false := hcancelled rfl
    obtain rfl : completed = false := hcompleted
    obtain rfl : running = false := hrun
    obtain rfl : joining = false := hjoin
    rfl
  | false =>
    obtain rfl : completed = true := hcompleted
    obtain rfl : joining = false := hjoin
    rfl

/-- **A join of a handle that no join has left with work.** -/
theorem JobHandle.join_done_iff_of_valid (hv : h.Valid t) :
    (h.join t).Done t ↔ (h.hasTask = true → Drains t h.task) := by
  rw [join_eq hv]
  cases htask : h.hasTask with
  | false =>
    rw [if_neg (by rintro ⟨⟩)]
    exact iff_of_true (hv.done htask) (by rintro ⟨⟩)
  | true =>
    rw [if_pos rfl, ← workersLoop_drains_iff, Done]
    show h.cancelled = true ∨ remaining t (workersLoop t false true 0 h.task) = 0 ↔ _
    rw [hv.cancelled htask]
    exact ⟨fun hdone _ => hdone.resolve_left (by rintro ⟨⟩), fun hzero => .inr (hzero rfl)⟩

theorem JobHandle.valid_join (hv : h.Valid t) (hd : h.hasTask = true → Drains t h.task) :
    (h.join t).Valid t := by
  have hdone := (join_done_iff_of_valid hv).mpr hd
  rw [join_eq hv] at hdone ⊢
  cases htask : h.hasTask with
  | false =>
    rw [if_neg (by rintro ⟨⟩)]
    exact hv
  | true =>
    rw [htask, if_pos rfl] at hdone
    rw [if_pos rfl]
    exact ⟨hv.not_running, hv.not_joining, rfl, (by rintro ⟨⟩), fun _ => hdone⟩

/-- **One operation.** -/
theorem JobHandle.valid_step (hv : h.Valid t) {a : JobOp σ} (ha : h.Drained t a) :
    (h.step t a).Valid t := by
  cases a with
  | join => exact valid_join hv ha
  | notify =>
    rw [step, notifyConcurrencyIncrease, if_neg fun hboth => ?_]
    · exact hv
    · rw [hv.not_joining] at hboth
      cases hboth.1
  | cancel => exact ⟨rfl, hv.not_joining, rfl, (by rintro ⟨⟩), fun _ => .inl rfl⟩
  | updatePriority priority =>
    have hv' : ({ h with priority } : JobHandle σ).Valid t :=
      ⟨hv.not_running, hv.not_joining, hv.completed, hv.cancelled, hv.done⟩
    rw [step, updatePriority]
    split
    · exact hv
    · split
      · rename_i hraise
        exact valid_join hv' (ha hraise.1)
      · exact hv'
  | work s =>
    rw [step]
    split
    · rename_i htask
      exact ⟨hv.not_running, hv.not_joining, hv.completed, hv.cancelled,
        fun hno => by cases hno.symm.trans htask⟩
    · exact hv

theorem JobHandle.valid_of_reaches {priority : TaskPriority} {s : σ}
    (hr : Reaches ({ task := s, priority } : JobHandle σ) (JobHandle.step t) (JobHandle.Drained t) h) :
    h.Valid t :=
  hr.invariant ⟨rfl, rfl, rfl, fun _ => rfl, nofun⟩ fun _ _ hv ha => valid_step hv ha

theorem reaches_postJob {priority : TaskPriority} {s : σ}
    (hd : priority ≠ .bestEffort → Drains t s) :
    Reaches ({ task := s, priority } : JobHandle σ) (JobHandle.step t) (JobHandle.Drained t)
      (postJob t priority s) := by
  rw [postJob]
  split
  · rename_i hpriority
    exact .step JobOp.join .start fun _ => hd hpriority
  · exact .start

/-- **A join comes back with the work done, or of a cancelled job, if and only if the job drains.** -/
theorem join_done_iff (t : JobTask w σ) {priority : TaskPriority} {s : σ}
    (hd : priority ≠ .bestEffort → Drains t s) {h : JobHandle σ}
    (hr : Reaches (postJob t priority s) (JobHandle.step t) (JobHandle.Drained t) h) :
    (h.join t).Done t ↔ (h.hasTask = true → Drains t h.task) := by
  have hv : (postJob t priority s).Valid t := JobHandle.valid_of_reaches (reaches_postJob hd)
  exact JobHandle.join_done_iff_of_valid
    (hr.invariant hv fun _ _ hv ha => JobHandle.valid_step hv ha)

/-- Units of work, of which each run does one. -/
def unitJob : JobTask 64 (BitVec 64) where
  getMaxConcurrency s _ := s
  run _ s := s - 1
  reports _ _ := rfl

/-- One unit is done. -/
theorem join_done_oneUnit :
    ((postJob unitJob .bestEffort 1).join unitJob).Done unitJob ↔
      ((postJob unitJob .bestEffort 1).hasTask = true →
        Drains unitJob (postJob unitJob .bestEffort 1).task) :=
  join_done_iff unitJob nofun .start

/-- Of four units two are left. -/
theorem fourUnits_not_done : ¬((postJob unitJob .bestEffort 4).join unitJob).Done unitJob := by
  have hv : (postJob unitJob .bestEffort 4).Valid unitJob :=
    ⟨rfl, rfl, rfl, fun _ => rfl, nofun⟩
  rw [JobHandle.join_done_iff_of_valid hv]
  intro hdrains
  exact absurd (hdrains rfl 2 (by decide) (by decide)) (by decide)

end Voodoo.Cppgc

import ApueFormal.Libc.File
import ApueFormal.Program.System

/-!
# Job numbers of the print daemon

The next job number is kept in memory.  Client threads advance it, the printer
thread writes it to the job file when it has picked up a job, and a restarted
daemon reads it back from there.
-/

namespace ApueFormal.Printer

open Libc Program

def filenmsz : Nat := 64

/-- The buffer of `init_request` before the job file is read into it. -/
def jobPath : Bytes := ascii "/var/spool/printer/jobno"

/-- `init_request`: the value of `nextjob` for the contents of the job file. -/
def initRequest (jobfile : Bytes) : Int :=
  let got := readAt jobfile 0 filenmsz
  if got = [] then 1
  else wrap 32 (atol (got ++ (jobPath ++ [0]).drop got.length))

/-- `update_jobno`: the contents of the job file. -/
def updateJobno (nextjob : Int) (jobfile : Bytes) : Bytes := writeAt jobfile 0 (fmtD nextjob)

/-- `get_newjobno`: the number of the job and the new value of `nextjob`. -/
def getNewjobno (nextjob : Int) : Int × Int :=
  let next := wrap 32 (nextjob + 1)
  (nextjob, if next ≤ 0 then 1 else next)

structure Memory where
  nextjob : Int
  /-- Jobs of client threads that have not created a control file. -/
  clients : List Int
  /-- Jobs of client threads that have one and are about to call `add_job`. -/
  spooled : List Int
  queue : List Int
  /-- The job in the hand of the printer thread. -/
  picked : Option Int

/-- The job file, the jobs with a control file, the memory of the daemon when it
runs, and the number of jobs so far. -/
structure Jobs where
  jobfile : Bytes
  control : List Int
  memory : Option Memory
  total : Nat

def noJobs : Jobs := ⟨[], [], none, 0⟩

/-- The steps of the daemon, which is only stopped in a state that meets the
condition. -/
inductive JobStep (condition : Jobs → Prop) : Jobs → Jobs → Prop where
  /-- `init_request`. -/
  | start {jobs : Jobs} (hstopped : jobs.memory = none) :
      JobStep condition jobs
        { jobs with memory := some ⟨initRequest jobs.jobfile, [], [], [], none⟩ }
  /-- `build_qonstart` queues a job. -/
  | requeue {jobs : Jobs} {memory : Memory} {job : Int} (hmemory : jobs.memory = some memory)
      (hcontrol : job ∈ jobs.control) :
      JobStep condition jobs
        { jobs with memory := some { memory with queue := memory.queue ++ [job] } }
  /-- `build_qonstart` removes a control file that it cannot read. -/
  | discard {jobs : Jobs} {memory : Memory} {job : Int} (hmemory : jobs.memory = some memory) :
      JobStep condition jobs { jobs with control := jobs.control.erase job }
  /-- A client thread calls `get_newjobno`. -/
  | assign {jobs : Jobs} {memory : Memory} (hmemory : jobs.memory = some memory)
      (htotal : jobs.total + 1 < 2 ^ 31 - 1) :
      JobStep condition jobs
        { jobs with
          memory := some { memory with
            nextjob := (getNewjobno memory.nextjob).2
            clients := (getNewjobno memory.nextjob).1 :: memory.clients }
          total := jobs.total + 1 }
  /-- A client thread gives up. -/
  | refuse {jobs : Jobs} {memory : Memory} {job : Int} (hmemory : jobs.memory = some memory) :
      JobStep condition jobs
        { jobs with memory := some { memory with clients := memory.clients.erase job } }
  /-- A client thread creates its control file. -/
  | creat {jobs : Jobs} {memory : Memory} {job : Int} (hmemory : jobs.memory = some memory)
      (hclient : job ∈ memory.clients) :
      JobStep condition jobs
        { jobs with
          control := job :: jobs.control
          memory := some { memory with
            clients := memory.clients.erase job
            spooled := job :: memory.spooled } }
  /-- A client thread calls `add_job`. -/
  | add {jobs : Jobs} {memory : Memory} {job : Int} (hmemory : jobs.memory = some memory)
      (hspooled : job ∈ memory.spooled) :
      JobStep condition jobs
        { jobs with memory := some { memory with
            spooled := memory.spooled.erase job
            queue := memory.queue ++ [job] } }
  /-- The printer thread picks up a job. -/
  | pick {jobs : Jobs} {memory : Memory} {job : Int} {rest : List Int}
      (hmemory : jobs.memory = some memory) (hqueue : memory.queue = job :: rest)
      (hpicked : memory.picked = none) :
      JobStep condition jobs
        { jobs with memory := some { memory with queue := rest, picked := some job } }
  /-- The printer thread calls `update_jobno`. -/
  | update {jobs : Jobs} {memory : Memory} {job : Int} (hmemory : jobs.memory = some memory)
      (hpicked : memory.picked = some job) :
      JobStep condition jobs { jobs with jobfile := updateJobno memory.nextjob jobs.jobfile }
  /-- The job is printed and its control file removed. -/
  | print {jobs : Jobs} {memory : Memory} {job : Int} (hmemory : jobs.memory = some memory)
      (hpicked : memory.picked = some job) :
      JobStep condition jobs
        { jobs with
          control := jobs.control.erase job
          memory := some { memory with picked := none } }
  /-- The job is cancelled; its control file stays. -/
  | cancel {jobs : Jobs} {memory : Memory} {job : Int} (hmemory : jobs.memory = some memory)
      (hpicked : memory.picked = some job) :
      JobStep condition jobs { jobs with memory := some { memory with picked := none } }
  /-- The job is deferred. -/
  | defer {jobs : Jobs} {memory : Memory} {job : Int} (hmemory : jobs.memory = some memory)
      (hpicked : memory.picked = some job) :
      JobStep condition jobs
        { jobs with memory := some { memory with
            queue := job :: memory.queue
            picked := none } }
  /-- The daemon ends, on a signal or otherwise. -/
  | stop {jobs : Jobs} (hcondition : condition jobs) :
      JobStep condition jobs { jobs with memory := none }

abbrev JobReaches (condition : Jobs → Prop) : Jobs → Prop :=
  Reaches (fun jobs => jobs = noJobs) (JobStep condition)

/-! ## The job file -/

theorem initRequest_decimal {value : Nat} (hvalue : value < 2 ^ 31) :
    initRequest (decimal value) = value := by
  have hlength : (decimal value).length ≤ 10 := length_decimal_le (by decide) (by omega)
  have hread : readAt (decimal value) 0 filenmsz = decimal value := by
    rw [readAt, List.drop_zero, List.take_of_length_le]
    exact Nat.le_trans hlength (by decide)
  have hrest : ∀ byte ∈ ((jobPath ++ [0]).drop (decimal value).length).head?,
      isDigit byte = false := by
    have hpath : ∀ count ≤ 10, ∀ byte ∈ ((jobPath ++ [0]).drop count).head?,
        isDigit byte = false := by
      decide +kernel
    exact hpath _ hlength
  have hatol : atol (decimal value ++ (jobPath ++ [0]).drop (decimal value).length) = value := by
    have hread := ato_padLeft_append 64 0 value (by omega) hrest
    rw [padLeft, Nat.zero_sub, List.replicate_zero, List.nil_append] at hread
    exact hread
  simp only [initRequest, hread, if_neg (decimal_ne_nil value), hatol]
  apply wrap_of_lt <;> omega

theorem updateJobno_decimal {value larger : Nat} (hle : value ≤ larger) :
    updateJobno larger (decimal value) = decimal larger := by
  rw [updateJobno, fmtD_natCast, writeAt, List.take_zero, Nat.zero_sub, List.replicate_zero,
    List.nil_append, Nat.zero_add, List.drop_of_length_le (length_decimal_mono hle),
    List.append_nil]
  rfl

/-! ## Numbers are unique while they are saved in time -/

/-- The number in the job file is above all pending jobs. -/
def Jobs.Saved (jobs : Jobs) : Prop := ∀ job ∈ jobs.control, job < initRequest jobs.jobfile

/-- The number that a restart would begin with, the next number and the jobs. -/
structure Jobs.Inv (jobs : Jobs) (saved : Nat) : Prop where
  file : jobs.jobfile = [] ∧ saved = 1 ∨ jobs.jobfile = decimal saved
  pos : 1 ≤ saved
  saved_le : saved ≤ jobs.total + 1
  total : jobs.total + 1 < 2 ^ 31
  stopped : jobs.memory = none → ∀ job ∈ jobs.control, job < saved
  running : ∀ memory, jobs.memory = some memory → ∃ next : Nat, memory.nextjob = next ∧
    saved ≤ next ∧ next ≤ jobs.total + 1 ∧ (∀ job ∈ jobs.control, job < next) ∧
    ∀ job ∈ memory.clients, job < next

namespace Jobs.Inv

variable {jobs : Jobs} {saved : Nat}
variable (hinv : jobs.Inv saved)
include hinv

theorem initRequest_eq : initRequest jobs.jobfile = saved := by
  have htotal := hinv.total
  have hle := hinv.saved_le
  rcases hinv.file with ⟨hempty, rfl⟩ | hdecimal
  · rw [hempty]
    rfl
  · rw [hdecimal, initRequest_decimal (by omega)]

omit hinv in
theorem start : noJobs.Inv 1 where
  file := .inl ⟨rfl, rfl⟩
  pos := Nat.le_refl 1
  saved_le := Nat.le_refl 1
  total := by decide
  stopped := fun _ _ hmem => by cases hmem
  running := fun _ hmemory => by cases hmemory

variable {memory : Memory}

/-- Steps that do not touch the counter, and create control files only for jobs
that have a number. -/
theorem keep {memory' : Memory} (hmemory : jobs.memory = some memory)
    (hnext : memory'.nextjob = memory.nextjob) {control : List Int}
    (hcontrol : ∀ job ∈ control, job ∈ jobs.control ∨ job ∈ memory.clients)
    (hclients : ∀ job ∈ memory'.clients, job ∈ memory.clients) :
    Inv { jobs with control := control, memory := some memory' } saved := by
  obtain ⟨next, hvalue, hsaved, hle, hpending, hassigned⟩ := hinv.running memory hmemory
  refine ⟨hinv.file, hinv.pos, hinv.saved_le, hinv.total, (fun hnone => by cases hnone), ?_⟩
  rintro _ ⟨⟩
  refine ⟨next, hnext.trans hvalue, hsaved, hle, ?_,
    fun job hmem => hassigned job (hclients job hmem)⟩
  intro job hmem
  rcases hcontrol job hmem with hold | hnew
  · exact hpending job hold
  · exact hassigned job hnew

theorem assign (hmemory : jobs.memory = some memory) (htotal : jobs.total + 1 < 2 ^ 31 - 1) :
    Inv { jobs with
      memory := some { memory with
        nextjob := (getNewjobno memory.nextjob).2
        clients := (getNewjobno memory.nextjob).1 :: memory.clients }
      total := jobs.total + 1 } saved := by
  obtain ⟨next, hvalue, hsaved, hle, hpending, hassigned⟩ := hinv.running memory hmemory
  have hwrap : getNewjobno memory.nextjob = ((next : Int), ((next + 1 : Nat) : Int)) := by
    have hsum : wrap 32 ((next : Int) + 1) = (next : Int) + 1 := by
      apply wrap_of_lt <;> omega
    rw [getNewjobno, hvalue, hsum, if_neg (by omega)]
    rfl
  refine ⟨hinv.file, hinv.pos, Nat.le_succ_of_le hinv.saved_le, by dsimp only; omega,
    (fun hnone => by cases hnone), ?_⟩
  rintro _ ⟨⟩
  dsimp only
  rw [hwrap]
  refine ⟨next + 1, rfl, by omega, by omega, ?_, ?_⟩
  · intro job hmem
    have := hpending job hmem
    omega
  · intro job hmem
    rcases List.mem_cons.mp hmem with rfl | hold
    · omega
    · have := hassigned job hold
      omega

theorem update (hmemory : jobs.memory = some memory) :
    ∃ saved', Inv { jobs with jobfile := updateJobno memory.nextjob jobs.jobfile } saved' := by
  obtain ⟨next, hvalue, hsaved, hle, hpending, hassigned⟩ := hinv.running memory hmemory
  have hpos := hinv.pos
  refine ⟨next, .inr ?_, by omega, hle, hinv.total, fun hnone => ?_, ?_⟩
  · dsimp only
    rw [hvalue]
    rcases hinv.file with ⟨hempty, _⟩ | hdecimal
    · rw [hempty, updateJobno, fmtD_natCast]
      simp [writeAt]
    · rw [hdecimal, updateJobno_decimal hsaved]
  · rw [hmemory] at hnone
    cases hnone
  · intro other hother
    cases hmemory.symm.trans hother
    exact ⟨next, hvalue, Nat.le_refl _, hle, hpending, hassigned⟩

/-- A step keeps the numbers in order when the daemon stops only with all
pending jobs below the saved number. -/
theorem step {jobs' : Jobs} (hstep : JobStep Jobs.Saved jobs jobs') :
    ∃ saved', jobs'.Inv saved' := by
  have hmem_erase : ∀ {jobs : List Int} {job other : Int}, other ∈ jobs.erase job → other ∈ jobs :=
    List.mem_of_mem_erase
  cases hstep with
  | start hstopped =>
    refine ⟨saved, hinv.file, hinv.pos, hinv.saved_le, hinv.total,
      (fun hnone => by cases hnone), ?_⟩
    rintro _ ⟨⟩
    exact ⟨saved, hinv.initRequest_eq, Nat.le_refl _, hinv.saved_le, hinv.stopped hstopped,
      fun _ hmem => by cases hmem⟩
  | requeue hmemory _ =>
    exact ⟨saved, hinv.keep hmemory (by rfl) (fun _ => .inl) fun _ => id⟩
  | discard hmemory =>
    rw [hmemory]
    exact ⟨saved, hinv.keep hmemory (by rfl) (fun _ hmem => .inl (hmem_erase hmem)) fun _ => id⟩
  | assign hmemory htotal => exact ⟨saved, hinv.assign hmemory htotal⟩
  | refuse hmemory =>
    exact ⟨saved, hinv.keep hmemory (by rfl) (fun _ => .inl) fun _ => hmem_erase⟩
  | creat hmemory hclient =>
    refine ⟨saved, hinv.keep hmemory (by rfl) ?_ fun _ => hmem_erase⟩
    intro job hmem
    rcases List.mem_cons.mp hmem with rfl | hold
    · exact .inr hclient
    · exact .inl hold
  | add hmemory _ | pick hmemory _ _ | cancel hmemory _ | defer hmemory _ =>
    exact ⟨saved, hinv.keep hmemory (by rfl) (fun _ => .inl) fun _ => id⟩
  | update hmemory _ => exact hinv.update hmemory
  | print hmemory _ =>
    exact ⟨saved, hinv.keep hmemory (by rfl) (fun _ hmem => .inl (hmem_erase hmem)) fun _ => id⟩
  | stop hsaved =>
    refine ⟨saved, hinv.file, hinv.pos, hinv.saved_le, hinv.total, fun _ job hmem => ?_,
      fun _ hmemory => by cases hmemory⟩
    rw [← hinv.initRequest_eq]
    exact hsaved job hmem

end Jobs.Inv

/-- In a run that stops only with all pending jobs below the saved number, a new
job never gets the number of a pending one. -/
theorem new_job_not_pending {jobs : Jobs} (hreaches : JobReaches Jobs.Saved jobs)
    {memory : Memory} (hmemory : jobs.memory = some memory) :
    (getNewjobno memory.nextjob).1 ∉ jobs.control := by
  have hinv : ∃ saved, jobs.Inv saved := by
    refine @Reaches.invariant _ _ _ (fun jobs => ∃ saved, jobs.Inv saved) ?_ ?_ _ hreaches
    · rintro _ rfl
      exact ⟨1, .start⟩
    · rintro jobs jobs' ⟨saved, hinv⟩ hstep
      exact hinv.step hstep
  obtain ⟨saved, hinv⟩ := hinv
  obtain ⟨next, hvalue, _, _, hpending, _⟩ := hinv.running memory hmemory
  intro hmem
  have hlt := hpending _ hmem
  rw [getNewjobno, hvalue] at hlt
  exact Int.lt_irrefl _ hlt

theorem first_job_spooled (condition : Jobs → Prop) :
    JobReaches condition ⟨[], [1], some ⟨2, [], [1], [], none⟩, 1⟩ := by
  have hstart : JobReaches condition ⟨[], [], some ⟨1, [], [], [], none⟩, 0⟩ :=
    .step (.start rfl) (.start rfl)
  have hassign : JobReaches condition ⟨[], [], some ⟨2, [1], [], [], none⟩, 1⟩ :=
    .step hstart (@JobStep.assign _ _ ⟨1, [], [], [], none⟩ rfl (by decide))
  exact .step hassign (@JobStep.creat _ _ ⟨2, [1], [], [], none⟩ 1 rfl (by decide))

/-- The first job has been picked up before the daemon is restarted. -/
theorem new_job_not_pending_restarted :
    JobReaches Jobs.Saved ⟨[50], [1], some ⟨2, [], [], [], none⟩, 1⟩ ∧
      (getNewjobno 2).1 ∉ [(1 : Int)] := by
  have hadd : JobReaches Jobs.Saved ⟨[], [1], some ⟨2, [], [], [1], none⟩, 1⟩ :=
    .step (first_job_spooled _) (@JobStep.add _ _ ⟨2, [], [1], [], none⟩ 1 rfl (by decide))
  have hpick : JobReaches Jobs.Saved ⟨[], [1], some ⟨2, [], [], [], some 1⟩, 1⟩ :=
    .step hadd (@JobStep.pick _ _ ⟨2, [], [], [1], none⟩ 1 [] rfl rfl rfl)
  have hupdate : JobReaches Jobs.Saved ⟨[50], [1], some ⟨2, [], [], [], some 1⟩, 1⟩ :=
    .step hpick (@JobStep.update _ _ ⟨2, [], [], [], some 1⟩ 1 rfl rfl)
  have hstop : JobReaches Jobs.Saved ⟨[50], [1], none, 1⟩ := by
    refine .step hupdate (.stop ?_)
    show ∀ job ∈ [(1 : Int)], job < initRequest [50]
    decide +kernel
  have hrestart : JobReaches Jobs.Saved ⟨[50], [1], some ⟨2, [], [], [], none⟩, 1⟩ := by
    have hstep := Reaches.step hstop (.start rfl)
    rwa [show initRequest [50] = 2 by decide +kernel] at hstep
  exact ⟨hrestart, new_job_not_pending hrestart rfl⟩

/-- The daemon is stopped when the first job is spooled and not yet picked up.
After a restart the next job gets the number of the pending one. -/
theorem restarted_number_pending :
    ∃ jobs memory, JobReaches (fun _ => True) jobs ∧ jobs.memory = some memory ∧
      jobs.control = [1] ∧ (getNewjobno memory.nextjob).1 = 1 := by
  have hrestart : JobReaches (fun _ => True) ⟨[], [1], some ⟨1, [], [], [], none⟩, 1⟩ :=
    .step (.step (first_job_spooled _) (.stop trivial)) (.start rfl)
  exact ⟨_, _, hrestart, rfl, rfl, rfl⟩

end ApueFormal.Printer

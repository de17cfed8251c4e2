import QemuKvm.Lib.Run
import Mathlib.Algebra.Group.Int.Defs

/-!
# Outgoing migration and CloudClone cloning (`migration.c`, `migration-tcp.c`)

The source side of live migration and of CloudClone's pre-copy cloning share
one `MigrationState` (`migrate_get_current`). Commands (`qmp_migrate`,
`qmp_precopy_cloning`, `qmp_migrate_cancel`, `qemu_info_cloning`) and
asynchronous callbacks (connect completion `tcp_wait_for_connect`, the
buffered file's rate-limit timer calling `put_ready`, the put-notify handler
after `EAGAIN`) all act on it. This module is that state machine:

* `Host` is the process state the code touches: the migration state, the
  registered migration blockers, the fd handlers, the open buffered files
  with their timers, the run state of the VM and a count of `clone_disk`
  calls;
* `Event` is one command or one callback, with every result the
  environment chooses for it (`Savevm` carries the return values of
  `qemu_savevm_state_*`, `qemu_fclose` and the clock);
* `step` is the C code of the command or callback, function by function.

The savevm handlers, the socket layer and the buffered file's data path are
outside the model: their results enter through the event. A callback that
would dereference a closed `s->file` (`qemu_savevm_state_iterate(NULL)`)
and the `assert` in a second `error_set` end the process: `Host.crashed`.
-/

namespace QemuKvm.Migration

/-! ## Data model -/

/-- `MIG_STATE_*`. -/
inductive MigState where
  | error
  | setup
  | cancelled
  | active
  | completed
  deriving DecidableEq, Repr

/-- `opType` of `MigrationState`: `MIGRATION` (0) or `CLONING` (1). -/
inductive OpType where
  | migration
  | cloning
  deriving DecidableEq, Repr

/-- `MigrationParams`. -/
structure MigrationParams where
  blk : Bool
  shared : Bool
  deriving DecidableEq, Repr

/-- The `put_ready` callback a buffered file was opened with. -/
inductive PutReady where
  | migrateFdPutReady
  | cloningIteratePhase
  deriving DecidableEq, Repr

/-- Write handlers installed with `qemu_set_fd_handler2`. -/
inductive FdHandler where
  | tcpWaitForConnect
  | unixWaitForConnect
  | migrateFdPutNotify
  deriving DecidableEq, Repr

/-- The fields of `MigrationState` that the modelled functions read or
write. `xbzrle` is `enabled_capabilities[MIGRATION_CAPABILITY_XBZRLE]`, the
only capability. -/
structure MigrationState where
  bandwidthLimit : Int
  file : Option ℕ
  fd : Int
  state : MigState
  params : MigrationParams
  totalTime : Int
  xbzrle : Bool
  xbzrleCacheSize : Int
  opType : OpType
  deriving DecidableEq, Repr

/-- The initializer of `current_migration` in `migrate_get_current`; the
other fields are zero (`fd = 0`, `opType = MIGRATION`). -/
def currentMigration : MigrationState where
  bandwidthLimit := 32 * 2 ^ 20
  file := none
  fd := 0
  state := .setup
  params := ⟨false, false⟩
  totalTime := 0
  xbzrle := false
  xbzrleCacheSize := 64 * 1024 * 1024
  opType := .migration

/-- The VM run states the migration code sets or tests. -/
inductive RunState where
  | running
  | paused
  | finishMigrate
  | postmigrate
  deriving DecidableEq, Repr

/-- The source process: everything the migration code reads or writes. -/
structure Host where
  mig : MigrationState
  /-- `migration_blockers`, newest first. -/
  blockers : List ℕ
  /-- `idstr` of the first savevm entry with `no_migrate`, if any. -/
  noMigrate : Option String
  /-- Installed fd handlers, at most one per fd. -/
  handlers : List (Int × FdHandler)
  /-- Open buffered files: each has a timer that calls its `put_ready`. -/
  files : List (ℕ × PutReady)
  nextFile : ℕ
  runState : RunState
  /-- How many times `clone_disk` has run. -/
  cloneDiskRuns : ℕ
  crashed : Bool
  deriving DecidableEq, Repr

/-- Result of `inet_connect` (and of `connect` for unix sockets). -/
inductive Connect where
  | failed
  | inProgress (fd : Int)
  | connected (fd : Int)
  deriving DecidableEq, Repr

/-- Result of `popen` + `fileno` for `exec:`. -/
inductive ExecOpen where
  | popenFailed
  | fileno (fd : Int)
  deriving DecidableEq, Repr

/-- Result of `monitor_get_fd` + `fcntl` for `fd:`. -/
inductive FdOpen where
  | noSuchFd
  | fcntlFailed (fd : Int)
  | ok (fd : Int)
  deriving DecidableEq, Repr

/-- The migration URI, by scheme, with the transport's outcome. -/
inductive Uri where
  | tcp (c : Connect)
  | exec (r : ExecOpen)
  | unix (c : Connect)
  | fd (r : FdOpen)
  | unknown
  deriving DecidableEq, Repr

/-- Results of the calls into code outside the model during one event. -/
structure Savevm where
  /-- `qemu_savevm_state_begin`. -/
  begin : Int
  /-- `qemu_savevm_state_iterate`. -/
  iterate : Int
  /-- `qemu_savevm_state_complete`. -/
  complete : Int
  /-- `qemu_fclose` of the buffered file. -/
  fclose : Int
  /-- The socket answered `EAGAIN` inside the savevm call. -/
  eagain : Bool
  /-- `qemu_file_get_error` of the file is set. -/
  fileError : Bool
  /-- `qemu_get_clock_ms(rt_clock)`. -/
  now : Int
  deriving DecidableEq, Repr

/-- `getsockopt(SO_ERROR)` in the connect callbacks. -/
inductive SockOpt where
  | failed
  | value (v : Int)
  deriving DecidableEq, Repr

/-- The `QERR_*` a command reports. -/
inductive QErr where
  | migrationActive
  | migrationNotSupported (device : String)
  | blocker (e : ℕ)
  | invalidParameterValue (name expected : String)
  | undefinedError
  | socket
  deriving DecidableEq, Repr

/-- What a command returns to the monitor. -/
inductive Reply where
  | ok
  | err (e : QErr)
  | status (v : Int)
  | aborted
  deriving DecidableEq, Repr

/-- One command or one callback, with the environment's results. -/
inductive Event where
  | migrate (uri : Uri) (blk inc : Bool) (o : Savevm)
  | precopyClone (uri : Uri) (blk inc : Bool) (o : Savevm)
  | cancel (o : Savevm)
  | addBlocker (e : ℕ)
  | delBlocker (e : ℕ)
  | fdReady (fd : Int) (r : SockOpt) (o : Savevm)
  | tick (file : ℕ) (o : Savevm)
  | infoCloning
  deriving DecidableEq, Repr

/-! ## Helpers: fd handlers, buffered files, cleanup -/

namespace Host

/-- `qemu_set_fd_handler2(fd, NULL, NULL, NULL, NULL)`. -/
def clearHandler (h : Host) (fd : Int) : Host :=
  { h with handlers := h.handlers.filter (fun p => p.1 ≠ fd) }

/-- `qemu_set_fd_handler2(fd, NULL, NULL, k, s)`. -/
def setHandler (h : Host) (fd : Int) (k : FdHandler) : Host :=
  { h with handlers := (fd, k) :: h.handlers.filter (fun p => p.1 ≠ fd) }

/-- Replace the migration state. -/
def setMig (h : Host) (m : MigrationState) : Host := { h with mig := m }

/-- `s->state = st`. -/
def setState (h : Host) (st : MigState) : Host := h.setMig { h.mig with state := st }

/-- `s->file = qemu_fopen_ops_buffered(s, ..., put_ready, ...)`: a new
buffered file with its rate-limit timer. A file `s->file` pointed to before
stays open, timer included. -/
def openBuffered (h : Host) (k : PutReady) : Host :=
  { h with mig := { h.mig with file := some h.nextFile }
           files := (h.nextFile, k) :: h.files
           nextFile := h.nextFile + 1 }

/-- `runstate_is_running()`. -/
def running (h : Host) : Bool := h.runState = .running

end Host

/-- Close `s->file`, whose close hook closes `s->fd`, or, with no file,
close `s->fd`; both are forgotten. The second component is `qemu_fclose`'s
result, `0` without a file. A file the rate-limit timer already closed on a
file error is freed memory: closing it again ends the process. -/
def closeFile (o : Savevm) (h : Host) : Host × Int :=
  match h.mig.file with
  | some f =>
    if (h.files.lookup f).isNone then ({ h with crashed := true }, o.fclose)
    else ({ h with mig := { h.mig with file := none, fd := -1 }
                   files := h.files.filter (fun p => p.1 ≠ f) }, o.fclose)
  | none => (h.setMig { h.mig with fd := -1 }, 0)

/-- `migrate_fd_cleanup`: drop the handler of `s->fd`, then close. -/
def migrateFdCleanup (o : Savevm) (h : Host) : Host × Int :=
  closeFile o (h.clearHandler h.mig.fd)

/-- `migrate_fd_error`. -/
def migrateFdError (o : Savevm) (h : Host) : Host :=
  (migrateFdCleanup o (h.setState .error)).1

/-- `migrate_fd_completed`: `COMPLETED` and `RUN_STATE_POSTMIGRATE` unless
closing the file failed. -/
def migrateFdCompleted (o : Savevm) (h : Host) : Host :=
  let r := migrateFdCleanup o h
  if r.2 < 0 then r.1.setState .error
  else { r.1.setState .completed with runState := .postmigrate }

/-- The socket write inside `qemu_savevm_state_*` answered `EAGAIN`:
`migrate_fd_put_buffer` (only reached while `ACTIVE`) installs
`migrate_fd_put_notify` on `s->fd`. -/
def savevmWrite (o : Savevm) (h : Host) : Host :=
  if o.eagain ∧ h.mig.state = .active then h.setHandler h.mig.fd .migrateFdPutNotify else h

/-- `qemu_savevm_state_complete` decides between `migrate_fd_error` and
`migrate_fd_completed`. -/
def completeOutcome (o : Savevm) (h : Host) : Host :=
  if o.complete < 0 then migrateFdError o h else migrateFdCompleted o h

/-- `s->total_time = qemu_get_clock_ms(rt_clock) - s->total_time`. -/
def Host.stopClock (h : Host) (now : Int) : Host :=
  h.setMig { h.mig with totalTime := now - h.mig.totalTime }

/-- The stop-and-copy tail of `migrate_fd_put_ready`, after iterate
returned 1: the VM restarts only if the migration did not complete. -/
def migrateFdFinish (o : Savevm) (h : Host) : Host :=
  let h' := (completeOutcome o { h with runState := .finishMigrate }).stopClock o.now
  if h'.mig.state ≠ .completed ∧ h.running then { h' with runState := .running } else h'

/-- `migrate_fd_put_ready`. -/
def migrateFdPutReady (o : Savevm) (h : Host) : Host :=
  if h.mig.state ≠ .active then h
  else match h.mig.file with
    | none => { h with crashed := true }
    | some _ =>
      let h := savevmWrite o h
      if o.iterate < 0 then migrateFdError o h
      else if o.iterate = 1 then migrateFdFinish o h
      else h

/-- `cloning_stop_n_copy_phase`: `clone_disk()` runs whatever
`qemu_savevm_state_complete` returned, and the VM is restarted if it was
running. -/
def cloningStopNCopyPhase (o : Savevm) (h : Host) : Host :=
  let h' := (completeOutcome o { h with runState := .finishMigrate }).stopClock o.now
  let h' := { h' with cloneDiskRuns := h'.cloneDiskRuns + 1 }
  if h.running then { h' with runState := .running } else h'

/-- `cloning_iterate_phase`: no test of the state, so a timer of a file
that is no longer `s->file` iterates on whatever `s->file` is. -/
def cloningIteratePhase (o : Savevm) (h : Host) : Host :=
  match h.mig.file with
  | none => { h with crashed := true }
  | some _ =>
    let h := savevmWrite o h
    if o.iterate < 0 then migrateFdError o h
    else if o.iterate = 1 then cloningStopNCopyPhase o h
    else h

/-- Dispatch a buffered file's `put_ready`. -/
def putReady (o : Savevm) : PutReady → Host → Host
  | .migrateFdPutReady => migrateFdPutReady o
  | .cloningIteratePhase => cloningIteratePhase o

/-- `do_precopy_cloning`. -/
def doPrecopyCloning (o : Savevm) (h : Host) : Host :=
  let h := (h.setState .active).openBuffered .cloningIteratePhase
  if o.begin < 0 then migrateFdError o h else cloningIteratePhase o h

/-- `migrate_fd_connect`. -/
def migrateFdConnect (o : Savevm) (h : Host) : Host :=
  let h := (h.setState .active).openBuffered .migrateFdPutReady
  if o.begin < 0 then migrateFdError o h else migrateFdPutReady o h

/-- `tcp_wait_for_connect`: the connect finished; start whichever operation
`opType` names. -/
def tcpWaitForConnect (o : Savevm) (r : SockOpt) (h : Host) : Host :=
  match r with
  | .failed => migrateFdError o h
  | .value v =>
    let h := h.clearHandler h.mig.fd
    if v = 0 then
      match h.mig.opType with
      | .cloning => doPrecopyCloning o h
      | .migration => migrateFdConnect o h
    else migrateFdError o h

/-- `unix_wait_for_connect`. -/
def unixWaitForConnect (o : Savevm) (r : SockOpt) (h : Host) : Host :=
  match r with
  | .failed => migrateFdError o h
  | .value v =>
    let h := h.clearHandler h.mig.fd
    if v = 0 then migrateFdConnect o h else migrateFdError o h

/-- Flushing buffered file `f` calls its `put_ready`. -/
def flushFile (o : Savevm) (f : ℕ) (h : Host) : Host :=
  match h.files.lookup f with
  | some k => putReady o k h
  | none => h

/-- `if (s->file && qemu_file_get_error(s->file)) migrate_fd_error(s)`. -/
def checkFileError (o : Savevm) (h : Host) : Host :=
  if h.mig.file.isSome ∧ o.fileError then migrateFdError o h else h

/-- `migrate_fd_put_notify`: the socket is writable again; flushing the
buffered file calls its `put_ready`, then a file error ends the operation. -/
def migrateFdPutNotify (o : Savevm) (h : Host) : Host :=
  let h := h.clearHandler h.mig.fd
  match h.mig.file with
  | none => { h with crashed := true }
  | some f => checkFileError o (flushFile o f h)

/-- `migrate_fd_cancel`. -/
def migrateFdCancel (o : Savevm) (h : Host) : Host :=
  if h.mig.state ≠ .active then h
  else (migrateFdCleanup o (h.setState .cancelled)).1

/-! ## Commands and callbacks -/

/-- `migrate_init`: everything but the bandwidth limit, the capabilities
and the XBZRLE cache size is reset (`memset`), the state is `SETUP`. Fd
handlers and buffered files are not `MigrationState` fields and stay. -/
def migrateInit (params : MigrationParams) (now : Int) (h : Host) : Host :=
  h.setMig
    { bandwidthLimit := h.mig.bandwidthLimit
      file := none
      fd := 0
      state := .setup
      params := params
      totalTime := now
      xbzrle := h.mig.xbzrle
      xbzrleCacheSize := h.mig.xbzrleCacheSize
      opType := .migration }

/-- The return of a `*_start_outgoing_*` function: the host, the return
value and whether it set `*errp`. -/
abbrev Started := Host × Int × Bool

/-- `tcp_start_outgoing_migration`. -/
def tcpStartOutgoingMigration (o : Savevm) (c : Connect) (h : Host) : Started :=
  match c with
  | .failed => (migrateFdError o (h.setMig { h.mig with fd := -1 }), -1, true)
  | .inProgress fd => ((h.setMig { h.mig with fd := fd }).setHandler fd .tcpWaitForConnect, 0, false)
  | .connected fd => (migrateFdConnect o (h.setMig { h.mig with fd := fd }), 0, false)

/-- `unix_start_outgoing_migration` (the socket itself is created). -/
def unixStartOutgoingMigration (o : Savevm) (c : Connect) (h : Host) : Started :=
  match c with
  | .failed => (migrateFdError o h, -1, false)
  | .inProgress fd => ((h.setMig { h.mig with fd := fd }).setHandler fd .unixWaitForConnect, 0, false)
  | .connected fd => (migrateFdConnect o (h.setMig { h.mig with fd := fd }), 0, false)

/-- `exec_start_outgoing_migration`. -/
def execStartOutgoingMigration (o : Savevm) (r : ExecOpen) (h : Host) : Started :=
  match r with
  | .popenFailed => (h, -1, false)
  | .fileno fd =>
    let h := h.setMig { h.mig with fd := fd }
    if fd = -1 then (h, -1, false) else (migrateFdConnect o h, 0, false)

/-- `fd_start_outgoing_migration`. -/
def fdStartOutgoingMigration (o : Savevm) (r : FdOpen) (h : Host) : Started :=
  match r with
  | .noSuchFd => (h.setMig { h.mig with fd := -1 }, -1, false)
  | .fcntlFailed fd => (h.setMig { h.mig with fd := fd }, -1, false)
  | .ok fd => (migrateFdConnect o (h.setMig { h.mig with fd := fd }), 0, false)

/-- `tcp_start_outgoing_precopy_cloning`: the connect callback is installed
even when the connect already finished. -/
def tcpStartOutgoingPrecopyCloning (o : Savevm) (c : Connect) (h : Host) : Started :=
  match c with
  | .failed => (migrateFdError o (h.setMig { h.mig with fd := -1 }), -1, true)
  | .inProgress fd | .connected fd =>
    ((h.setMig { h.mig with fd := fd }).setHandler fd .tcpWaitForConnect, 0, false)

/-- The reply after a start function: its own error, or
`QERR_UNDEFINED_ERROR` when it failed without one. -/
def startReply (r : Started) : Host × Reply :=
  if r.2.2 then (r.1, .err .socket)
  else if r.2.1 < 0 then (r.1, .err .undefinedError)
  else (r.1, .ok)

/-- `qmp_migrate`. `opType` is written before any check. -/
def qmpMigrate (uri : Uri) (blk inc : Bool) (o : Savevm) (h : Host) : Host × Reply :=
  let h := h.setMig { h.mig with opType := .migration }
  if h.mig.state = .active then (h, .err .migrationActive)
  else match h.noMigrate, h.blockers with
    | some dev, _ => (h, .err (.migrationNotSupported dev))
    | none, b :: _ => (h, .err (.blocker b))
    | none, [] =>
      let h := migrateInit ⟨blk, inc⟩ o.now h
      match uri with
      | .tcp c => startReply (tcpStartOutgoingMigration o c h)
      | .exec r => startReply (execStartOutgoingMigration o r h)
      | .unix c => startReply (unixStartOutgoingMigration o c h)
      | .fd r => startReply (fdStartOutgoingMigration o r h)
      | .unknown => (h, .err (.invalidParameterValue "uri" "a valid migration protocol"))

/-- `qmp_precopy_cloning`. No test of the state, no test of the
blockers, no `migrate_init`; a blocked savevm entry makes the second
`error_set` fail its `assert(*errp == NULL)`. -/
def qmpPrecopyCloning (uri : Uri) (blk inc : Bool) (o : Savevm) (h : Host) :
    Host × Reply :=
  let h := h.setMig { h.mig with opType := .cloning }
  match h.noMigrate with
  | some _ => ({ h with crashed := true }, .aborted)
  | none =>
    let h := h.setMig { h.mig with params := ⟨blk, inc⟩, totalTime := o.now }
    match uri with
    | .tcp c => startReply (tcpStartOutgoingPrecopyCloning o c h)
    | _ => (h, .err (.invalidParameterValue "uri" "only tcp protocol is supported for cloning"))

/-- `qemu_info_cloning`. -/
def qemuInfoCloning (m : MigrationState) : Int :=
  match m.state with
  | .completed => 1
  | .active => 0
  | .error | .cancelled => -1
  | .setup => 0

/-- The handler installed on `fd` runs. -/
def fdReady (fd : Int) (r : SockOpt) (o : Savevm) (h : Host) : Host :=
  match h.handlers.lookup fd with
  | none => h
  | some .tcpWaitForConnect => tcpWaitForConnect o r h
  | some .unixWaitForConnect => unixWaitForConnect o r h
  | some .migrateFdPutNotify => migrateFdPutNotify o h

/-- `buffered_close` of buffered file `f` after a file error: its close
hook drops the handler of `s->fd` and closes `s->fd`; `s->file` and the
state are left as they are. -/
def bufferedCloseOnError (f : ℕ) (h : Host) : Host :=
  let h := h.clearHandler h.mig.fd
  { h with mig := { h.mig with fd := -1 }, files := h.files.filter (fun p => p.1 ≠ f) }

/-- `buffered_rate_tick` of buffered file `f`: on a file error the file is
closed, otherwise its `put_ready` runs. -/
def tick (f : ℕ) (o : Savevm) (h : Host) : Host :=
  match h.files.lookup f with
  | none => h
  | some k => if o.fileError then bufferedCloseOnError f h else putReady o k h

/-- One command or callback. Nothing runs after the process ended. -/
def step (h : Host) (e : Event) : Host × Reply :=
  if h.crashed then (h, .aborted) else
  match e with
  | .migrate uri blk inc o => qmpMigrate uri blk inc o h
  | .precopyClone uri blk inc o => qmpPrecopyCloning uri blk inc o h
  | .cancel o => (migrateFdCancel o h, .ok)
  | .addBlocker b => ({ h with blockers := b :: h.blockers }, .ok)
  | .delBlocker b => ({ h with blockers := h.blockers.erase b }, .ok)
  | .fdReady fd r o => (fdReady fd r o h, .ok)
  | .tick f o => (tick f o h, .ok)
  | .infoCloning => (h, .status (qemuInfoCloning h.mig))

/-- The process at start-up: no migration ever, the VM running. -/
def initHost : Host where
  mig := currentMigration
  blockers := []
  noMigrate := none
  handlers := []
  files := []
  nextFile := 0
  runState := .running
  cloneDiskRuns := 0
  crashed := false

/-! ## Field lemmas

The helpers are structure updates; `simp` unfolds them and reads fields
off directly. -/

attribute [simp] Host.setMig Host.setState Host.clearHandler Host.setHandler Host.openBuffered

/-! ## Where each function leaves the state -/

/-- Closing touches the file, the fd, the open files and `crashed` only. -/
theorem closeFile_frame (o : Savevm) (h : Host) :
    (closeFile o h).1.mig.state = h.mig.state ∧
      (closeFile o h).1.cloneDiskRuns = h.cloneDiskRuns ∧
      (closeFile o h).1.runState = h.runState ∧
      (closeFile o h).1.mig.totalTime = h.mig.totalTime := by
  unfold closeFile
  split
  · split <;> simp
  · simp

theorem migrateFdCleanup_state (o : Savevm) (h : Host) :
    (migrateFdCleanup o h).1.mig.state = h.mig.state :=
  (closeFile_frame o _).1

theorem migrateFdCleanup_cloneDiskRuns (o : Savevm) (h : Host) :
    (migrateFdCleanup o h).1.cloneDiskRuns = h.cloneDiskRuns :=
  (closeFile_frame o _).2.1

theorem migrateFdError_state (o : Savevm) (h : Host) :
    (migrateFdError o h).mig.state = .error := by
  simp [migrateFdError, migrateFdCleanup_state]

theorem migrateFdCompleted_state (o : Savevm) (h : Host) :
    (migrateFdCompleted o h).mig.state = .error ∨
      (migrateFdCompleted o h).mig.state = .completed := by
  simp only [migrateFdCompleted]
  split <;> simp

theorem completeOutcome_state (o : Savevm) (h : Host) :
    (completeOutcome o h).mig.state = .error ∨ (completeOutcome o h).mig.state = .completed := by
  unfold completeOutcome
  split
  · exact Or.inl (migrateFdError_state o h)
  · exact migrateFdCompleted_state o h

theorem migrateFdError_cloneDiskRuns (o : Savevm) (h : Host) :
    (migrateFdError o h).cloneDiskRuns = h.cloneDiskRuns := by
  simp [migrateFdError, migrateFdCleanup_cloneDiskRuns]

theorem migrateFdCompleted_cloneDiskRuns (o : Savevm) (h : Host) :
    (migrateFdCompleted o h).cloneDiskRuns = h.cloneDiskRuns := by
  simp only [migrateFdCompleted]
  split <;> simp [migrateFdCleanup_cloneDiskRuns]

theorem completeOutcome_cloneDiskRuns (o : Savevm) (h : Host) :
    (completeOutcome o h).cloneDiskRuns = h.cloneDiskRuns := by
  unfold completeOutcome
  split
  · exact migrateFdError_cloneDiskRuns o h
  · exact migrateFdCompleted_cloneDiskRuns o h

@[simp] theorem stopClock_state (h : Host) (now : Int) :
    (h.stopClock now).mig.state = h.mig.state := rfl

@[simp] theorem stopClock_cloneDiskRuns (h : Host) (now : Int) :
    (h.stopClock now).cloneDiskRuns = h.cloneDiskRuns := rfl

/-- The stop-and-copy phase of a cloning ends the operation, in `ERROR` or
in `COMPLETED`. -/
theorem cloningStopNCopyPhase_state (o : Savevm) (h : Host) :
    (cloningStopNCopyPhase o h).mig.state = .error ∨
      (cloningStopNCopyPhase o h).mig.state = .completed := by
  simp only [cloningStopNCopyPhase]
  split <;> simpa using completeOutcome_state o _

/-- `clone_disk` runs exactly once in a stop-and-copy phase, whatever
`qemu_savevm_state_complete` returned. -/
theorem cloningStopNCopyPhase_cloneDiskRuns (o : Savevm) (h : Host) :
    (cloningStopNCopyPhase o h).cloneDiskRuns = h.cloneDiskRuns + 1 := by
  simp only [cloningStopNCopyPhase]
  split <;> simp [completeOutcome_cloneDiskRuns]

theorem savevmWrite_mig (o : Savevm) (h : Host) : (savevmWrite o h).mig = h.mig := by
  unfold savevmWrite
  split <;> rfl

theorem migrateFdFinish_state (o : Savevm) (h : Host) :
    (migrateFdFinish o h).mig.state = .error ∨ (migrateFdFinish o h).mig.state = .completed := by
  simp only [migrateFdFinish]
  split <;> simpa using completeOutcome_state o _

/-! ## Invariant: an `ACTIVE` operation has its file

`migrate_fd_put_ready` tests `s->state == MIG_STATE_ACTIVE` and then
iterates on `s->file`; that is safe because every path that sets `ACTIVE`
opens the file in the same callback and every path that closes it leaves
`ACTIVE`. -/

/-- An operation in `ACTIVE` has its buffered file in `s->file`. -/
def ActiveHasFile (h : Host) : Prop := h.mig.state = .active → h.mig.file.isSome

theorem activeHasFile_of_ne {h : Host} (hne : h.mig.state ≠ .active) : ActiveHasFile h :=
  fun hact => absurd hact hne

theorem activeHasFile_of_mig {h h' : Host} (hm : h'.mig = h.mig) (hi : ActiveHasFile h) :
    ActiveHasFile h' := by
  unfold ActiveHasFile
  rw [hm]
  exact hi

theorem activeHasFile_migrateFdError (o : Savevm) (h : Host) :
    ActiveHasFile (migrateFdError o h) :=
  activeHasFile_of_ne (by simp [migrateFdError_state])

theorem activeHasFile_migrateFdFinish (o : Savevm) (h : Host) :
    ActiveHasFile (migrateFdFinish o h) := by
  apply activeHasFile_of_ne
  rcases migrateFdFinish_state o h with hst | hst <;> simp [hst]

theorem activeHasFile_cloningStopNCopyPhase (o : Savevm) (h : Host) :
    ActiveHasFile (cloningStopNCopyPhase o h) := by
  apply activeHasFile_of_ne
  rcases cloningStopNCopyPhase_state o h with hst | hst <;> simp [hst]

theorem activeHasFile_migrateFdPutReady (o : Savevm) {h : Host} (hi : ActiveHasFile h) :
    ActiveHasFile (migrateFdPutReady o h) := by
  unfold migrateFdPutReady
  split
  · exact hi
  · split
    · exact activeHasFile_of_mig rfl hi
    · -- iterate on the open file: error, stop-and-copy, or nothing
      split
      · exact activeHasFile_migrateFdError o _
      · split
        · exact activeHasFile_migrateFdFinish o _
        · exact activeHasFile_of_mig (savevmWrite_mig o h) hi

theorem activeHasFile_cloningIteratePhase (o : Savevm) {h : Host} (hi : ActiveHasFile h) :
    ActiveHasFile (cloningIteratePhase o h) := by
  unfold cloningIteratePhase
  split
  · exact activeHasFile_of_mig rfl hi
  · split
    · exact activeHasFile_migrateFdError o _
    · split
      · exact activeHasFile_cloningStopNCopyPhase o _
      · exact activeHasFile_of_mig (savevmWrite_mig o h) hi

theorem activeHasFile_putReady (o : Savevm) (k : PutReady) {h : Host} (hi : ActiveHasFile h) :
    ActiveHasFile (putReady o k h) := by
  cases k with
  | migrateFdPutReady => exact activeHasFile_migrateFdPutReady o hi
  | cloningIteratePhase => exact activeHasFile_cloningIteratePhase o hi

/-- Opening the buffered file of a new operation establishes the
invariant, and its first `put_ready` keeps it. -/
theorem activeHasFile_start (o : Savevm) (k : PutReady) (h : Host) :
    ActiveHasFile (if o.begin < 0 then migrateFdError o ((h.setState .active).openBuffered k)
      else putReady o k ((h.setState .active).openBuffered k)) := by
  have hopen : ActiveHasFile ((h.setState .active).openBuffered k) := by
    intro _
    simp
  split
  · exact activeHasFile_migrateFdError o _
  · exact activeHasFile_putReady o k hopen

theorem activeHasFile_doPrecopyCloning (o : Savevm) (h : Host) :
    ActiveHasFile (doPrecopyCloning o h) :=
  activeHasFile_start o .cloningIteratePhase h

theorem activeHasFile_migrateFdConnect (o : Savevm) (h : Host) :
    ActiveHasFile (migrateFdConnect o h) :=
  activeHasFile_start o .migrateFdPutReady h

theorem activeHasFile_tcpWaitForConnect (o : Savevm) (r : SockOpt) (h : Host) :
    ActiveHasFile (tcpWaitForConnect o r h) := by
  unfold tcpWaitForConnect
  cases r with
  | failed => exact activeHasFile_migrateFdError o h
  | value v =>
    simp only
    split
    · -- the connect succeeded: start the operation `opType` names
      split
      · exact activeHasFile_doPrecopyCloning o _
      · exact activeHasFile_migrateFdConnect o _
    · exact activeHasFile_migrateFdError o _

theorem activeHasFile_unixWaitForConnect (o : Savevm) (r : SockOpt) (h : Host) :
    ActiveHasFile (unixWaitForConnect o r h) := by
  unfold unixWaitForConnect
  cases r with
  | failed => exact activeHasFile_migrateFdError o h
  | value v =>
    simp only
    split
    · exact activeHasFile_migrateFdConnect o _
    · exact activeHasFile_migrateFdError o _

theorem activeHasFile_flushFile (o : Savevm) (f : ℕ) {h : Host} (hi : ActiveHasFile h) :
    ActiveHasFile (flushFile o f h) := by
  unfold flushFile
  split
  · exact activeHasFile_putReady o _ hi
  · exact hi

theorem activeHasFile_checkFileError (o : Savevm) {h : Host} (hi : ActiveHasFile h) :
    ActiveHasFile (checkFileError o h) := by
  unfold checkFileError
  split
  · exact activeHasFile_migrateFdError o h
  · exact hi

theorem activeHasFile_migrateFdPutNotify (o : Savevm) {h : Host} (hi : ActiveHasFile h) :
    ActiveHasFile (migrateFdPutNotify o h) := by
  have hc : ActiveHasFile (h.clearHandler h.mig.fd) := activeHasFile_of_mig rfl hi
  simp only [migrateFdPutNotify]
  split
  · exact activeHasFile_of_mig rfl hc
  · exact activeHasFile_checkFileError o (activeHasFile_flushFile o _ hc)

theorem activeHasFile_migrateFdCancel (o : Savevm) {h : Host} (hi : ActiveHasFile h) :
    ActiveHasFile (migrateFdCancel o h) := by
  unfold migrateFdCancel
  split
  · exact hi
  · apply activeHasFile_of_ne
    simp [migrateFdCleanup_state]

theorem activeHasFile_fdReady (fd : Int) (r : SockOpt) (o : Savevm) {h : Host}
    (hi : ActiveHasFile h) : ActiveHasFile (fdReady fd r o h) := by
  unfold fdReady
  split
  · exact hi
  · exact activeHasFile_tcpWaitForConnect o r h
  · exact activeHasFile_unixWaitForConnect o r h
  · exact activeHasFile_migrateFdPutNotify o hi

/-- The timer's close on a file error keeps `s->file` and the state. -/
theorem activeHasFile_bufferedCloseOnError (f : ℕ) {h : Host} (hi : ActiveHasFile h) :
    ActiveHasFile (bufferedCloseOnError f h) :=
  fun hact => hi hact

theorem activeHasFile_tick (f : ℕ) (o : Savevm) {h : Host} (hi : ActiveHasFile h) :
    ActiveHasFile (tick f o h) := by
  unfold tick
  split
  · exact hi
  · split
    · exact activeHasFile_bufferedCloseOnError f hi
    · exact activeHasFile_putReady o _ hi

theorem startReply_fst (r : Started) : (startReply r).1 = r.1 := by
  unfold startReply
  split
  · rfl
  · split <;> rfl

theorem activeHasFile_startReply {r : Started} (hi : ActiveHasFile r.1) :
    ActiveHasFile (startReply r).1 := by
  rw [startReply_fst]
  exact hi

/-- Setting `s->fd` and a connect handler keeps `s->file` and the state. -/
theorem activeHasFile_setFd (fd : Int) (k : FdHandler) {h : Host} (hi : ActiveHasFile h) :
    ActiveHasFile ((h.setMig { h.mig with fd := fd }).setHandler fd k) :=
  fun hact => hi hact

theorem activeHasFile_qmpMigrate (uri : Uri) (blk inc : Bool) (o : Savevm) {h : Host}
    (hi : ActiveHasFile h) : ActiveHasFile (qmpMigrate uri blk inc o h).1 := by
  have hop : ActiveHasFile (h.setMig { h.mig with opType := .migration }) := fun hact => hi hact
  simp only [qmpMigrate]
  split
  · exact hop
  · -- past the checks, `migrate_init` leaves `SETUP`
    have hinit : ∀ h', ActiveHasFile (migrateInit ⟨blk, inc⟩ o.now h') :=
      fun _ => activeHasFile_of_ne (by simp [migrateInit])
    split
    · exact hop
    · exact hop
    · split
      · apply activeHasFile_startReply
        unfold tcpStartOutgoingMigration
        split
        · exact activeHasFile_migrateFdError o _
        · exact activeHasFile_setFd _ _ (hinit _)
        · exact activeHasFile_migrateFdConnect o _
      · apply activeHasFile_startReply
        unfold execStartOutgoingMigration
        split
        · exact hinit _
        · split
          · exact activeHasFile_of_ne (by simp [migrateInit])
          · exact activeHasFile_migrateFdConnect o _
      · apply activeHasFile_startReply
        unfold unixStartOutgoingMigration
        split
        · exact activeHasFile_migrateFdError o _
        · exact activeHasFile_setFd _ _ (hinit _)
        · exact activeHasFile_migrateFdConnect o _
      · apply activeHasFile_startReply
        unfold fdStartOutgoingMigration
        split
        · exact activeHasFile_of_ne (by simp [migrateInit])
        · exact activeHasFile_of_ne (by simp [migrateInit])
        · exact activeHasFile_migrateFdConnect o _
      · exact hinit _

theorem activeHasFile_qmpPrecopyCloning (uri : Uri) (blk inc : Bool) (o : Savevm) {h : Host}
    (hi : ActiveHasFile h) : ActiveHasFile (qmpPrecopyCloning uri blk inc o h).1 := by
  have hop : ∀ p t, ActiveHasFile
      ((h.setMig { h.mig with opType := .cloning }).setMig
        { (h.setMig { h.mig with opType := .cloning }).mig with params := p, totalTime := t }) :=
    fun _ _ hact => hi hact
  simp only [qmpPrecopyCloning]
  split
  · exact fun hact => hi hact
  · split
    · apply activeHasFile_startReply
      unfold tcpStartOutgoingPrecopyCloning
      split
      · exact activeHasFile_migrateFdError o _
      · exact activeHasFile_setFd _ _ (hop _ _)
      · exact activeHasFile_setFd _ _ (hop _ _)
    · exact hop _ _

theorem activeHasFile_step {h : Host} (e : Event) (hi : ActiveHasFile h) :
    ActiveHasFile (step h e).1 := by
  unfold step
  split
  · exact hi
  · cases e with
    | migrate uri blk inc o => exact activeHasFile_qmpMigrate uri blk inc o hi
    | precopyClone uri blk inc o => exact activeHasFile_qmpPrecopyCloning uri blk inc o hi
    | cancel o => exact activeHasFile_migrateFdCancel o hi
    | addBlocker b => exact hi
    | delBlocker b => exact hi
    | fdReady fd r o => exact activeHasFile_fdReady fd r o hi
    | tick f o => exact activeHasFile_tick f o hi
    | infoCloning => exact hi

/-- In every run from start-up, an `ACTIVE` operation has its file. -/
theorem run_activeHasFile (evs : List Event) : ActiveHasFile (run step initHost evs) :=
  run_invariant step ActiveHasFile (fun _ e hi => activeHasFile_step e hi)
    (activeHasFile_of_ne (by decide)) evs

/-! ## The commands against the contract

`qmp_migrate` refuses a second operation while one is `ACTIVE`, touching
only `opType`. `qmp_precopy_cloning`, the hand-written copy of it, accepts
a cloning whatever the state and the blockers, and rewrites the fields of
whatever operation is running; a completed earlier operation keeps
`qemu_info_cloning` at 1 although the new cloning has not even connected. -/

/-- `qmp_migrate` while `ACTIVE`: `QERR_MIGRATION_ACTIVE`, and only
`opType` changes. -/
theorem step_migrate_of_active (uri : Uri) (blk inc : Bool) (o : Savevm) {h : Host}
    (hc : h.crashed = false) (hact : h.mig.state = .active) :
    step h (.migrate uri blk inc o) =
      (h.setMig { h.mig with opType := .migration }, .err .migrationActive) := by
  simp [step, hc, qmpMigrate, hact]

/-- `qmp_precopy_cloning` over a tcp connect that did not fail is accepted
in every state and with any blocker registered; it keeps `s->state` and
`s->file` and overwrites `s->fd`, `opType`, `params` and `total_time`. -/
theorem step_precopyClone_accepted (c : Connect) (fd : Int) (blk inc : Bool) (o : Savevm)
    {h : Host} (hc : h.crashed = false) (hnm : h.noMigrate = none)
    (hconn : c = .inProgress fd ∨ c = .connected fd) :
    (step h (.precopyClone (.tcp c) blk inc o)).2 = .ok ∧
      (step h (.precopyClone (.tcp c) blk inc o)).1.mig =
        { h.mig with fd := fd, opType := .cloning, params := ⟨blk, inc⟩, totalTime := o.now } := by
  rcases hconn with rfl | rfl <;>
    simp [step, hc, qmpPrecopyCloning, hnm, tcpStartOutgoingPrecopyCloning, startReply]

/-- A cloning accepted after a completed operation reports "cloning
completed" before it has done anything. -/
theorem qemuInfoCloning_after_precopyClone (c : Connect) (fd : Int) (blk inc : Bool)
    (o : Savevm) {h : Host} (hc : h.crashed = false) (hnm : h.noMigrate = none)
    (hconn : c = .inProgress fd ∨ c = .connected fd) (hdone : h.mig.state = .completed) :
    qemuInfoCloning (step h (.precopyClone (.tcp c) blk inc o)).1.mig = 1 := by
  rw [(step_precopyClone_accepted c fd blk inc o hc hnm hconn).2]
  simp [qemuInfoCloning, hdone]

/-- With a savevm entry that cannot migrate, `qmp_precopy_cloning` aborts
the process. -/
theorem step_precopyClone_blocked (uri : Uri) (blk inc : Bool) (o : Savevm) {h : Host}
    (dev : String) (hc : h.crashed = false) (hnm : h.noMigrate = some dev) :
    (step h (.precopyClone uri blk inc o)).2 = .aborted ∧
      (step h (.precopyClone uri blk inc o)).1.crashed = true := by
  simp [step, hc, qmpPrecopyCloning, hnm]

theorem savevmWrite_cloneDiskRuns (o : Savevm) (h : Host) :
    (savevmWrite o h).cloneDiskRuns = h.cloneDiskRuns := by
  unfold savevmWrite
  split <;> rfl

theorem cloningStopNCopyPhase_state_of_complete_neg (o : Savevm) (h : Host)
    (hneg : o.complete < 0) : (cloningStopNCopyPhase o h).mig.state = .error := by
  simp only [cloningStopNCopyPhase, completeOutcome, hneg]
  split <;> simp [migrateFdError_state]

/-- A cloning whose final `qemu_savevm_state_complete` fails ends in
`ERROR` and still switches the disks with `clone_disk`. -/
theorem step_tick_cloning_complete_failed (f : ℕ) (o : Savevm) {h : Host} (g : ℕ)
    (hc : h.crashed = false) (hf : h.files.lookup f = some .cloningIteratePhase)
    (hg : h.mig.file = some g) (hfe : o.fileError = false) (hit : o.iterate = 1)
    (hneg : o.complete < 0) :
    (step h (.tick f o)).1.mig.state = .error ∧
      (step h (.tick f o)).1.cloneDiskRuns = h.cloneDiskRuns + 1 := by
  have hrun : (step h (.tick f o)).1 = cloningStopNCopyPhase o (savevmWrite o h) := by
    simp [step, hc, tick, hf, hfe, putReady, cloningIteratePhase, hg, hit]
  rw [hrun, cloningStopNCopyPhase_cloneDiskRuns, savevmWrite_cloneDiskRuns]
  exact ⟨cloningStopNCopyPhase_state_of_complete_neg o _ hneg, rfl⟩

/-- The failing run: a tcp migration that connects at once is `ACTIVE`
with fd 5; a `precopy_clone` issued then is accepted, takes fd 6 for itself
and turns the running migration's `opType` into `CLONING`. -/
theorem precopyClone_during_active_migration :
    let o : Savevm := ⟨0, 0, 0, 0, false, false, 100⟩
    let h := run step initHost [.migrate (.tcp (.connected 5)) false false o]
    let r := step h (.precopyClone (.tcp (.inProgress 6)) false false o)
    h.mig.state = .active ∧ h.mig.fd = 5 ∧ h.mig.opType = .migration ∧
      r.2 = .ok ∧ r.1.mig.state = .active ∧ r.1.mig.fd = 6 ∧ r.1.mig.opType = .cloning := by
  decide

end QemuKvm.Migration

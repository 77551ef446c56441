import Mathlib.Data.Fintype.Basic
import Mathlib.Data.UInt
import RadonMCU.Equinios.Format
import RadonMCU.Foundations.LinkedRing
import RadonMCU.Foundations.StepSystem
import RadonMCU.Foundations.TerminatedText

/-!
# File descriptors

The registers of devices and file systems and the pool of file descriptors, from
{lit}`alt_dev.c`, {lit}`alt_open.c`, {lit}`alt_close.c`, {lit}`alt_ioctl.c` and the functions
they call.  What the functions of a device return is an input of the call; they do not
themselves open, close or lock descriptors.  {lit}`alt_fd_list_lock` is not needed in the
single-threaded HAL, where its macros are empty.
-/

namespace RadonMCU
namespace Hal

open LinkedRing

/-- Address of an {lit}`alt_dev`. -/
abbrev DevId := Nat

/-- A C string and the memory behind it. -/
abbrev Name := TerminatedText UInt8

/-- The error numbers that the file functions set, and those a device returns. -/
inductive Errno where
  | eAcces
  | eBadfd
  | eInval
  | eMfile
  | eNodev
  | eNotty
  | device (code : Nat)
deriving DecidableEq

/-- The return value of a function, or the number in {lit}`ALT_ERRNO`. -/
abbrev Answer := Except Errno Nat

/-- The constant members of {lit}`alt_dev`: its name, a null pointer being {lit}`none`, and
which functions it has. -/
structure Dev where
  name : Option Name
  hasOpen : Bool
  hasClose : Bool
  hasRead : Bool
  hasWrite : Bool
  hasIoctl : Bool

/-- Address of {lit}`alt_dev_null`. -/
def altDevNull : DevId := 0

/-- The list cells: {lit}`alt_dev_list`, {lit}`alt_fs_list` and the member {lit}`llist` of a
device. -/
inductive Cell where
  | altDevList
  | altFsList
  | dev (d : DevId)
deriving DecidableEq

/-- The members of {lit}`alt_fd` but its private data. -/
structure Fd where
  dev : Option DevId
  fdFlags : UInt32
deriving DecidableEq

/-- {lit}`ALT_FD_EXCL`. -/
def altFdExcl : UInt32 := 0x80000000

/-- {lit}`ALT_FD_DEV`. -/
def altFdDev : UInt32 := 0x40000000

/-- {lit}`ALT_FD_FLAGS_MASK`. -/
def altFdFlagsMask : UInt32 := altFdExcl ||| altFdDev

/-- {lit}`O_ACCMODE`. -/
def oAccmode : UInt32 := 3

/-- {lit}`O_RDONLY`. -/
def oRdonly : UInt32 := 0

/-- {lit}`O_WRONLY`. -/
def oWronly : UInt32 := 1

/-- {lit}`ALT_FCNTL_FLAGS_MASK`: {lit}`O_APPEND` and {lit}`O_NONBLOCK`. -/
def altFcntlFlagsMask : UInt32 := 0x0008 ||| 0x4000

/-- {lit}`TIOCEXCL`. -/
def tiocexcl : UInt32 := 0x740D

/-- {lit}`TIOCNXCL`. -/
def tiocnxcl : UInt32 := 0x740E

/-- The character {lit}`'/'`. -/
def slash : UInt8 := 47

/-- The data of {lit}`alt_dev.c`; {lit}`n` is {lit}`ALT_MAX_FD`. -/
structure Files (n : Nat) where
  links : Links Cell
  altFdList : Fin n → Fd
  altMaxFd : Int

/-- The constant data of all devices. -/
abbrev Devices := DevId → Dev

/-! ## Looking up a name -/

/-- The test of a turn of {lit}`alt_find_dev`; a device without a name is never listed. -/
def Dev.isNamed (dev : Dev) (name : Name) : Bool :=
  match dev.name with
  | some own => own.Agree name (name.text.length + 1)
  | none => false

/-- The test of a turn of {lit}`alt_find_file`. -/
def Dev.isMountOf (dev : Dev) (name : Name) : Bool :=
  match dev.name with
  | some own =>
      let len := own.text.length
      let len := if own.cell (len - 1) = slash then len - 1 else len
      decide ((name.cell len = slash ∨ name.cell len = 0) ∧ own.Agree name len)
  | none => false

/-- The loop of {lit}`alt_find_dev` and {lit}`alt_find_file` from a cell of the list on; it
does not end within the given turns in the case {lit}`none`. -/
def findLoop (found : DevId → Bool) (links : Links Cell) (head : Cell) :
    Nat → Cell → Option (Option DevId)
  | fuel, next =>
      if next = head then some none
      else
        match fuel, next with
        | fuel + 1, .dev d =>
            if found d then some (some d) else findLoop found links head fuel (links.next next)
        | _, _ => none

/-- {lit}`alt_find_dev` on the list of devices. -/
def altFindDev (devices : Devices) (links : Links Cell) (fuel : Nat) (name : Name) :
    Option (Option DevId) :=
  findLoop (fun d => (devices d).isNamed name) links .altDevList fuel (links.next .altDevList)

/-- {lit}`alt_find_file` on the list of file systems. -/
def altFindFile (devices : Devices) (links : Links Cell) (fuel : Nat) (name : Name) :
    Option (Option DevId) :=
  findLoop (fun d => (devices d).isMountOf name) links .altFsList fuel (links.next .altFsList)

namespace Files

variable {n : Nat}

/-! ## The pool of descriptors -/

/-- A descriptor is written. -/
def setFd (t : Files n) (i : Fin n) (fd : Fd) : Files n :=
  { t with altFdList := Function.update t.altFdList i fd }

/-- The flags of a descriptor are written. -/
def setFlags (t : Files n) (i : Fin n) (flags : UInt32) : Files n :=
  t.setFd i { t.altFdList i with fdFlags := flags }

/-- {lit}`alt_get_fd`: the lowest descriptor that is not in use, or {lit}`EMFILE`. -/
def altGetFd (t : Files n) (dev : DevId) : Except Errno (Fin n) × Files n :=
  match (List.finRange n).find? fun i => (t.altFdList i).dev.isNone with
  | some i =>
      let t := t.setFd i { t.altFdList i with dev := some dev }
      (.ok i, { t with altMaxFd := if (i : Int) > t.altMaxFd then i else t.altMaxFd })
  | none => (.error .eMfile, t)

/-- {lit}`alt_release_fd`: the standard descriptors stay in use. -/
def altReleaseFd (t : Files n) (fd : Fin n) : Files n :=
  if fd.val > 2 then t.setFd fd { dev := none, fdFlags := 0 } else t

/-- The loop ends before {lit}`alt_max_fd` is reached. -/
def altFdLock (t : Files n) (fd : Fin n) : Answer × Files n :=
  if ∃ i : Fin n, (i : Int) < t.altMaxFd ∧
      i ≠ fd ∧ (t.altFdList i).dev = (t.altFdList fd).dev then
    (.error .eAcces, t)
  else (.ok 0, t.setFlags fd ((t.altFdList fd).fdFlags ||| altFdExcl))

/-- {lit}`alt_fd_unlock`. -/
def altFdUnlock (t : Files n) (fd : Fin n) : Answer × Files n :=
  (.ok 0, t.setFlags fd ((t.altFdList fd).fdFlags &&& ~~~altFdExcl))

/-- The loop counter is unsigned, and so is its comparison with {lit}`alt_max_fd`. -/
def altFileLocked (t : Files n) (fd : Fin n) : Answer × Files n :=
  let t := t.setFlags fd ((t.altFdList fd).fdFlags ||| altFdDev)
  if ∃ i : Fin n, (i : Int) ≤ t.altMaxFd % 4294967296 ∧
      (t.altFdList i).dev = (t.altFdList fd).dev ∧
      (t.altFdList i).fdFlags &&& altFdExcl ≠ 0 ∧ i ≠ fd then
    (.error .eAcces, t)
  else (.ok 0, t)

/-! ## The calls -/

/-- {lit}`alt_dev_reg`. -/
def altDevReg (devices : Devices) (t : Files n) (dev : Option DevId) : Answer × Files n :=
  match dev with
  | some d =>
      if (devices d).name.isSome then
        (.ok 0, { t with links := insert t.links .altDevList (.dev d) })
      else (.error .eInval, t)
  | none => (.error .eInval, t)

/-- {lit}`alt_fs_reg`. -/
def altFsReg (devices : Devices) (t : Files n) (dev : DevId) : Answer × Files n :=
  if (devices dev).name.isSome then
    (.ok 0, { t with links := insert t.links .altFsList (.dev dev) })
  else (.error .eNodev, t)

/-- What a call of a function of a device gives; without the function it is the default. -/
def callDev (has : Bool) (returned default : Answer) : Answer := if has then returned else default

/-- The device or file system that owns the name, and whether it is a file system. -/
def altFind (devices : Devices) (t : Files n) (fuel : Nat) (file : Name) :
    Option (Option DevId × Bool) :=
  match altFindDev devices t.links fuel file with
  | some (some d) => some (some d, false)
  | some none => (altFindFile devices t.links fuel file).map fun dev => (dev, true)
  | none => none

/-- {lit}`alt_open` after the search; {lit}`opened` is what the function {lit}`open` of the
device returns. -/
def openDev (devices : Devices) (t : Files n) (dev : Option DevId) (isafs : Bool)
    (flags : UInt32) (opened : Answer) : Except Errno (Fin n) × Files n :=
  match dev with
  | some d =>
      match t.altGetFd d with
      | (.ok index, t) =>
          let t := t.setFlags index (flags &&& ~~~altFdFlagsMask)
          let locked := if isafs then (.ok 0, t) else t.altFileLocked index
          let status : Answer :=
            match locked.1 with
            | .ok _ => callDev (devices d).hasOpen opened (.ok 0)
            | .error e => .error e
          match status with
          | .ok _ => (.ok index, locked.2)
          | .error e => (.error e, locked.2.altReleaseFd index)
      | (.error e, t) => (.error e, t)
  | none => (.error .eNodev, t)

/-- {lit}`alt_open`, if the search ends. -/
def altOpen (devices : Devices) (t : Files n) (fuel : Nat) (file : Name) (flags : UInt32)
    (opened : Answer) : Option (Except Errno (Fin n) × Files n) :=
  (altFind devices t fuel file).map fun res => openDev devices t res.1 res.2 flags opened

/-- {lit}`alt_open_fd` of {lit}`alt_io_redirect`. -/
def altOpenFd (devices : Devices) (t : Files n) (fuel : Nat) (fd : Fin n) (name : Name)
    (flags : UInt32) (opened : Answer) : Option (Files n) :=
  (altOpen devices t fuel name flags opened).map fun res =>
    match res with
    | (.ok old, t) => (t.setFd fd (t.altFdList old)).altReleaseFd old
    | (.error _, t) => t

/-- {lit}`fildes < 0 ? NULL : &alt_fd_list[fildes]`; no call has a number beyond the list. -/
def fdOf (n : Nat) (fildes : Int) : Option (Fin n) :=
  if h : 0 ≤ fildes ∧ fildes.toNat < n then some ⟨fildes.toNat, h.2⟩ else none

/-- The device of an open descriptor has the function. -/
def hasCall (devices : Devices) (fd : Fd) (has : Dev → Bool) : Bool :=
  fd.dev.any fun d => has (devices d)

/-- {lit}`closed` is what the function {lit}`close` of the device returns. -/
def altClose (devices : Devices) (t : Files n) (fildes : Int) (closed : Answer) :
    Answer × Files n :=
  match fdOf n fildes with
  | some fd =>
      let rval := callDev (hasCall devices (t.altFdList fd) Dev.hasClose) closed (.ok 0)
      (rval.map fun _ => 0, t.altReleaseFd fd)
  | none => (.error .eBadfd, t)

/-- {lit}`answered` is what the function {lit}`ioctl` of the device returns. -/
def altIoctl (devices : Devices) (t : Files n) (fildes : Int) (req : UInt32)
    (answered : Answer) : Answer × Files n :=
  match fdOf n fildes with
  | some fd =>
      if (t.altFdList fd).fdFlags &&& altFdDev ≠ 0 ∧ req = tiocexcl then t.altFdLock fd
      else if (t.altFdList fd).fdFlags &&& altFdDev ≠ 0 ∧ req = tiocnxcl then t.altFdUnlock fd
      else (callDev (hasCall devices (t.altFdList fd) Dev.hasIoctl) answered (.error .eNotty), t)
  | none => (.error .eBadfd, t)

/-- The common body of {lit}`alt_read` and {lit}`alt_write`: {lit}`refused` is the access mode
that excludes the call, {lit}`done` what the function of the device returns. -/
def transfer (devices : Devices) (has : Dev → Bool) (refused : UInt32) (t : Files n)
    (file : Int) (done : Answer) : Answer :=
  match fdOf n file with
  | some fd =>
      if (t.altFdList fd).fdFlags &&& oAccmode ≠ refused ∧
          hasCall devices (t.altFdList fd) has then done
      else .error .eAcces
  | none => .error .eBadfd

/-- {lit}`alt_read`, not allowed for descriptors that were opened only for writing. -/
def altRead (devices : Devices) : Files n → Int → Answer → Answer :=
  transfer devices Dev.hasRead oWronly

/-- {lit}`alt_write`, not allowed for descriptors that were opened only for reading. -/
def altWrite (devices : Devices) : Files n → Int → Answer → Answer :=
  transfer devices Dev.hasWrite oRdonly

/-- The command of {lit}`fcntl`. -/
inductive FcntlCmd where
  | getFl
  | setFl (flags : UInt32)
  | other

/-- {lit}`alt_fcntl`. -/
def altFcntl (t : Files n) (file : Int) (cmd : FcntlCmd) : Answer × Files n :=
  match fdOf n file with
  | some fd =>
      match cmd with
      | .getFl => (.ok ((t.altFdList fd).fdFlags &&& ~~~altFdFlagsMask).toNat, t)
      | .setFl flags =>
          let t := t.setFlags fd ((t.altFdList fd).fdFlags &&& ~~~altFcntlFlagsMask)
          (.ok 0, t.setFlags fd ((t.altFdList fd).fdFlags ||| (flags &&& altFcntlFlagsMask)))
      | .other => (.error .eInval, t)
  | none => (.error .eBadfd, t)

end Files

namespace Files

/-- The only other descriptor of the device is the highest one ever used. -/
def OnlyTop {n : Nat} (t : Files n) (fd : Fin n) : Prop :=
  ∃ top : Fin n, (top : Int) = t.altMaxFd ∧ top ≠ fd ∧ ∀ i, i ≠ fd →
    ((t.altFdList i).dev = (t.altFdList fd).dev ↔ i = top)

instance {n : Nat} (t : Files n) : DecidablePred t.OnlyTop := fun _ =>
  inferInstanceAs (Decidable (∃ _, _))

end Files

/-! ## Runs -/

/-- The calls of a program, each with what the function of the device returns. -/
inductive FileCall (n : Nat) where
  | devReg (dev : Option DevId)
  | fsReg (dev : DevId)
  | openFile (file : Name) (flags : UInt32) (opened : Answer)
  | close (fildes : Int) (closed : Answer)
  | ioctl (fildes : Int) (req : UInt32) (answered : Answer)
  | read (file : Int) (done : Answer)
  | write (file : Int) (done : Answer)
  | fcntl (file : Int) (cmd : Files.FcntlCmd)
  /-- {lit}`alt_open_fd` for standard input, output or error. -/
  | openFd (std : Fin n) (name : Name) (flags : UInt32) (opened : Answer)

/-- The files with their history: the devices and file systems registered, and the answers of
the calls. -/
structure FileSystem (n : Nat) where
  files : Files n
  registered : List DevId
  answers : List Answer
  /-- A search took more turns than devices and file systems are registered. -/
  hung : Bool

namespace FileSystem

variable {n : Nat}

/-- The first three descriptors are those of the null device, the only one in the list. -/
def init (n : Nat) : FileSystem n where
  files :=
    { links :=
        { next := fun c =>
            if c = .altDevList then .dev altDevNull
            else if c = .dev altDevNull then .altDevList else c
          previous := fun c =>
            if c = .altDevList then .dev altDevNull
            else if c = .dev altDevNull then .altDevList else c }
      altFdList := fun i => { dev := if i.val < 3 then some altDevNull else none, fdFlags := 0 }
      altMaxFd := -1 }
  registered := [altDevNull]
  answers := []
  hung := false

/-- A call that returns. -/
def answer (s : FileSystem n) (res : Answer × Files n) : FileSystem n :=
  { s with files := res.2, answers := s.answers ++ [res.1] }

/-- A registration that returns; it counts if it was accepted. -/
def register (s : FileSystem n) (dev : Option DevId) (res : Answer × Files n) : FileSystem n :=
  { s.answer res with
    registered := if res.1 = .ok 0 then dev.toList ++ s.registered else s.registered }

/-- The calls. -/
def step (devices : Devices) (s : FileSystem n) : FileCall n → FileSystem n
  | .devReg dev => s.register dev (s.files.altDevReg devices dev)
  | .fsReg dev => s.register (some dev) (s.files.altFsReg devices dev)
  | .openFile file flags opened =>
      match s.files.altOpen devices s.registered.length file flags opened with
      | some res => s.answer (res.1.map Fin.val, res.2)
      | none => { s with hung := true }
  | .close fildes closed => s.answer (s.files.altClose devices fildes closed)
  | .ioctl fildes req answered => s.answer (s.files.altIoctl devices fildes req answered)
  | .read file done => s.answer (s.files.altRead devices file done, s.files)
  | .write file done => s.answer (s.files.altWrite devices file done, s.files)
  | .fcntl file cmd => s.answer (s.files.altFcntl file cmd)
  | .openFd std name flags opened =>
      match s.files.altOpenFd devices s.registered.length std name flags opened with
      | some files => s.answer (.ok 0, files)
      | none => { s with hung := true }

/-- The files after some calls. -/
abbrev run (devices : Devices) (s : FileSystem n) (calls : List (FileCall n)) : FileSystem n :=
  StepSystem.run (step devices) s calls

/-- The number is negative or that of an open descriptor. -/
def Valid (s : FileSystem n) (fildes : Int) : Prop :=
  fildes < 0 ∨ ∃ fd ∈ Files.fdOf n fildes, (s.files.altFdList fd).dev.isSome

instance (s : FileSystem n) : DecidablePred s.Valid := fun _ =>
  inferInstanceAs (Decidable (_ ∨ _))

/-- A device or file system is registered once, a file system has a name that is not empty,
and the other calls are given negative numbers or those of open descriptors. -/
def Allowed (devices : Devices) (s : FileSystem n) : FileCall n → Prop
  | .devReg dev => ∀ d ∈ dev, d ∉ s.registered
  | .fsReg dev => dev ∉ s.registered ∧ ∀ own ∈ (devices dev).name, own.text ≠ []
  | .openFile _ _ _ => True
  | .close fildes _ => s.Valid fildes
  | .ioctl fildes _ _ => s.Valid fildes
  | .read file _ => s.Valid file
  | .write file _ => s.Valid file
  | .fcntl file _ => s.Valid file
  | .openFd std _ _ _ => std.val < 3

instance (devices : Devices) (s : FileSystem n) : DecidablePred (s.Allowed devices)
  | .devReg dev => inferInstanceAs (Decidable (∀ d ∈ dev, d ∉ s.registered))
  | .fsReg _ => inferInstanceAs (Decidable (_ ∧ _))
  | .openFile _ _ _ => isTrue trivial
  | .close fildes _ => inferInstanceAs (Decidable (s.Valid fildes))
  | .ioctl fildes _ _ => inferInstanceAs (Decidable (s.Valid fildes))
  | .read file _ => inferInstanceAs (Decidable (s.Valid file))
  | .write file _ => inferInstanceAs (Decidable (s.Valid file))
  | .fcntl file _ => inferInstanceAs (Decidable (s.Valid file))
  | .openFd std _ _ _ => inferInstanceAs (Decidable (std.val < 3))

/-- A lock is asked for while the only other descriptor of the device is the one at which the
loop of {lit}`alt_fd_lock` ends. -/
def Blind (s : FileSystem n) : FileCall n → Prop
  | .ioctl fildes req _ =>
      req = tiocexcl ∧ ∃ fd ∈ Files.fdOf n fildes,
        (s.files.altFdList fd).fdFlags &&& altFdDev ≠ 0 ∧ s.files.OnlyTop fd
  | _ => False

instance (s : FileSystem n) : DecidablePred s.Blind
  | .ioctl fildes req _ => inferInstanceAs (Decidable (req = tiocexcl ∧
      ∃ fd ∈ Files.fdOf n fildes, (s.files.altFdList fd).fdFlags &&& altFdDev ≠ 0 ∧
        s.files.OnlyTop fd))
  | .devReg _ | .fsReg _ | .openFile _ _ _ | .close _ _ | .read _ _ | .write _ _ | .fcntl _ _
  | .openFd _ _ _ _ => isFalse id

end FileSystem

/-! ## The devices of the board -/

/-- {lit}`"/dev/null"`, with the memory behind it. -/
def altDevNullName (beyond : Nat → UInt8) : Name where
  text := Equinios.bytesOf "/dev/null"
  zero_notMem := by decide +kernel
  beyond

/-- {lit}`JTAG_UART_NAME`, with the memory behind it. -/
def jtagUartName (beyond : Nat → UInt8) : Name where
  text := Equinios.bytesOf "/dev/JTAG_UART"
  zero_notMem := by decide +kernel
  beyond

/-- Address of the device of the JTAG UART. -/
def jtagUart : DevId := 1

/-- {lit}`alt_dev_null`, the device of the JTAG UART with the small driver, for which the board
is built, and any other devices and file systems. -/
def boardDevices (beyond : Nat → UInt8) (others : Devices) : Devices := fun d =>
  if d = altDevNull then
    { name := some (altDevNullName beyond)
      hasOpen := false
      hasClose := false
      hasRead := false
      hasWrite := true
      hasIoctl := false }
  else if d = jtagUart then
    { name := some (jtagUartName beyond)
      hasOpen := false
      hasClose := false
      hasRead := true
      hasWrite := true
      hasIoctl := false }
  else others d

/-- {lit}`alt_io_redirect`. -/
def altIoRedirect (stdoutDev stdinDev stderrDev : Name) (opened : Fin 3 → Answer) :
    List (FileCall 4) :=
  [ .openFd (Fin.castSucc 1) stdoutDev oWronly (opened 0),
    .openFd (Fin.castSucc 0) stdinDev oRdonly (opened 1),
    .openFd (Fin.castSucc 2) stderrDev oWronly (opened 2) ]

/-- What {lit}`alt_main` does before {lit}`main`; {lit}`ALT_MAX_FD` is 4 and {lit}`ALT_STDOUT`,
{lit}`ALT_STDIN` and {lit}`ALT_STDERR` are the name of the JTAG UART. -/
def boot (beyond : Nat → UInt8) (opened : Fin 3 → Answer) : List (FileCall 4) :=
  .devReg (some jtagUart) ::
    altIoRedirect (jtagUartName beyond) (jtagUartName beyond) (jtagUartName beyond) opened

end Hal
end RadonMCU

import Mathlib.Data.List.Infix
import RadonMCU.Hal.Files

/-!
# The service that file descriptors give

What the file functions are for: a directory of devices and one of file systems, and open
files, each on a device of one of them.  An open file may be made exclusive while it is the
only one of its device, and then no other one is opened.

Main results:

- Theorem {lit}`Service.Orderly.step`: every call keeps exclusive files alone on their devices.
-/

namespace RadonMCU
namespace Hal

/-- An open file. -/
structure Session where
  dev : DevId
  /-- The flags of {lit}`open`, as changed by {lit}`fcntl`. -/
  flags : UInt32
  /-- The file is a device, not a file of a file system. -/
  isDevice : Bool
  exclusive : Bool
deriving DecidableEq

/-- The file that {lit}`open` gives. -/
def Session.opened (d : DevId) (isafs : Bool) (flags : UInt32) : Session where
  dev := d
  flags := flags &&& ~~~altFdFlagsMask
  isDevice := !isafs
  exclusive := false

/-- The open files by their descriptors. -/
abbrev Sessions (n : Nat) := Fin n → Option Session

namespace Sessions

variable {n : Nat}

/-- A file is open on the device under another descriptor. -/
def Shared (σ : Sessions n) (i : Fin n) (d : DevId) : Prop :=
  ∃ j, j ≠ i ∧ ∃ a ∈ σ j, a.dev = d

/-- The device has an exclusive file. -/
def Locked (σ : Sessions n) (d : DevId) : Prop := ∃ i, ∃ a ∈ σ i, a.dev = d ∧ a.exclusive = true

instance (σ : Sessions n) (i : Fin n) : DecidablePred (σ.Shared i) := fun _ =>
  inferInstanceAs (Decidable (∃ _, _))

instance (σ : Sessions n) : DecidablePred σ.Locked := fun _ =>
  inferInstanceAs (Decidable (∃ _, _))

/-- The lowest free descriptor. -/
def lowest (σ : Sessions n) : Option (Fin n) := (List.finRange n).find? fun i => (σ i).isNone

/-- Another session, or none, for a descriptor. -/
def put (σ : Sessions n) (i : Fin n) (session : Option Session) : Sessions n :=
  Function.update σ i session

/-- The descriptors of standard input, output and error are never freed. -/
def release (σ : Sessions n) (i : Fin n) : Sessions n := if i.val > 2 then σ.put i none else σ

/-- Open a file on a device or file system. -/
def openOn (devices : Devices) (σ : Sessions n) (d : DevId) (isafs : Bool) (flags : UInt32)
    (opened : Answer) : Except Errno (Fin n) × Sessions n :=
  match σ.lowest with
  | some i =>
      if isafs = false ∧ σ.Locked d then (.error .eAcces, σ)
      else
        match Files.callDev (devices d).hasOpen opened (.ok 0) with
        | .ok _ => (.ok i, σ.put i (some (Session.opened d isafs flags)))
        | .error e => (.error e, σ)
  | none => (.error .eMfile, σ)

/-- The descriptor of an open file gets the file of another one, which is freed. -/
def redirect (σ : Sessions n) (i old : Fin n) : Sessions n := (σ.put i (σ old)).release old

/-- A lock: refused while another session has the device open. -/
def lock (σ : Sessions n) (i : Fin n) (a : Session) : Answer × Sessions n :=
  if σ.Shared i a.dev then (.error .eAcces, σ)
  else (.ok 0, σ.put i (some { a with exclusive := true }))

end Sessions

/-! ## Names -/

/-- The directory of a file system: its name without a final slash. -/
def mountPoint (text : List UInt8) : List UInt8 :=
  if text.getLast? = some slash then text.dropLast else text

/-- The file is the directory or in it. -/
def Covers (mount file : List UInt8) : Prop :=
  mount <+: file ∧ ∀ c ∈ (file.drop mount.length).head?, c = slash

instance (mount file : List UInt8) : Decidable (Covers mount file) :=
  inferInstanceAs (Decidable (_ ∧ _))

/-- The directory and the open files, with the answers given. -/
structure Service (n : Nat) where
  /-- The devices, the one registered last first. -/
  directory : List DevId
  /-- The file systems, the one registered last first. -/
  volumes : List DevId
  sessions : Sessions n
  answers : List Answer

namespace Service

variable {n : Nat}

/-- The device of this name, or the file system in which the file is. -/
def resolve (devices : Devices) (t : Service n) (file : Name) : Option (DevId × Bool) :=
  match t.directory.find? fun d => (devices d).name.any fun own => own.text = file.text with
  | some d => some (d, false)
  | none =>
      (t.volumes.find? fun d =>
        (devices d).name.any fun own => decide (Covers (mountPoint own.text) file.text)).map
          fun d => (d, true)

/-- The first three descriptors are open on the null device. -/
def init (n : Nat) : Service n where
  directory := [altDevNull]
  volumes := []
  sessions := fun i =>
    if i.val < 3 then
      some { dev := altDevNull, flags := 0, isDevice := false, exclusive := false }
    else none
  answers := []

/-- A call that leaves the registers as they are. -/
def answer (t : Service n) (res : Answer × Sessions n) : Service n :=
  { t with sessions := res.2, answers := t.answers ++ [res.1] }

/-- An open gives the lowest free descriptor a session on what the name resolves to. -/
def openFile (devices : Devices) (t : Service n) (file : Name) (flags : UInt32)
    (opened : Answer) : Except Errno (Fin n) × Sessions n :=
  match t.resolve devices file with
  | some res => t.sessions.openOn devices res.1 res.2 flags opened
  | none => (.error .eNodev, t.sessions)

/-- A call with a descriptor; a negative number is none. -/
def onFile (t : Service n) (fildes : Int) (act : Fin n → Session → Answer × Sessions n) :
    Service n :=
  match Files.fdOf n fildes with
  | some i =>
      match t.sessions i with
      | some a => t.answer (act i a)
      | none => t
  | none => t.answer (.error .eBadfd, t.sessions)

/-- The calls, as the service understands them. -/
def step (devices : Devices) (t : Service n) : FileCall n → Service n
  | .devReg (some d) =>
      if (devices d).name.isSome then
        { t with directory := d :: t.directory, answers := t.answers ++ [.ok 0] }
      else t.answer (.error .eInval, t.sessions)
  | .devReg none => t.answer (.error .eInval, t.sessions)
  | .fsReg d =>
      if (devices d).name.isSome then
        { t with volumes := d :: t.volumes, answers := t.answers ++ [.ok 0] }
      else t.answer (.error .eNodev, t.sessions)
  | .openFile file flags opened =>
      let res := t.openFile devices file flags opened
      t.answer (res.1.map Fin.val, res.2)
  | .close fildes closed =>
      t.onFile fildes fun i a =>
        ( (Files.callDev (devices a.dev).hasClose closed (.ok 0)).map fun _ => 0,
          t.sessions.release i )
  | .ioctl fildes req answered =>
      t.onFile fildes fun i a =>
        if a.isDevice = true ∧ req = tiocexcl then t.sessions.lock i a
        else if a.isDevice = true ∧ req = tiocnxcl then
          (.ok 0, t.sessions.put i (some { a with exclusive := false }))
        else (Files.callDev (devices a.dev).hasIoctl answered (.error .eNotty), t.sessions)
  | .read file done =>
      t.onFile file fun _ a =>
        ( if a.flags &&& oAccmode ≠ oWronly ∧ (devices a.dev).hasRead then done
          else .error .eAcces, t.sessions )
  | .write file done =>
      t.onFile file fun _ a =>
        ( if a.flags &&& oAccmode ≠ oRdonly ∧ (devices a.dev).hasWrite then done
          else .error .eAcces, t.sessions )
  | .fcntl file cmd =>
      t.onFile file fun i a =>
        match cmd with
        | .getFl => (.ok a.flags.toNat, t.sessions)
        | .setFl flags =>
            ( .ok 0, t.sessions.put i (some { a with
              flags := (a.flags &&& ~~~altFcntlFlagsMask) ||| (flags &&& altFcntlFlagsMask) }) )
        | .other => (.error .eInval, t.sessions)
  | .openFd std name flags opened =>
      match t.openFile devices name flags opened with
      | (.ok old, σ) => t.answer (.ok 0, σ.redirect std old)
      | (.error _, σ) => t.answer (.ok 0, σ)

/-- The service after some calls. -/
abbrev run (devices : Devices) (t : Service n) (calls : List (FileCall n)) : Service n :=
  StepSystem.run (step devices) t calls

/-- What is registered was not registered before. -/
def New (t : Service n) : FileCall n → Prop
  | .devReg dev => ∀ d ∈ dev, d ∉ t.volumes
  | .fsReg dev => dev ∉ t.directory
  | _ => True

end Service

/-! ## Exclusive files -/

/-- An exclusive file is the only one of its device. -/
def Sessions.Alone {n : Nat} (σ : Sessions n) : Prop :=
  ∀ i, ∀ a ∈ σ i, a.exclusive = true → ¬ σ.Shared i a.dev

namespace Sessions

variable {n : Nat} {σ : Sessions n} {i : Fin n}

/-- The session that was put. -/
theorem put_self (σ : Sessions n) (i : Fin n) (session : Option Session) :
    σ.put i session i = session := Function.update_self ..

/-- The other sessions stay. -/
theorem put_of_ne {j : Fin n} (hne : j ≠ i) (session : Option Session) :
    σ.put i session j = σ j := Function.update_of_ne hne ..

/-- A file may change its place in the table when it is not exclusive beside another one and
no exclusive one is beside it. -/
theorem Alone.put (h : σ.Alone) {session : Option Session}
    (hown : ∀ a ∈ session, a.exclusive = true → ¬ σ.Shared i a.dev)
    (hothers : ∀ a ∈ session, ∀ j, j ≠ i → ∀ b ∈ σ j, b.exclusive = true → b.dev ≠ a.dev) :
    (σ.put i session).Alone := by
  rintro j a ha hexclusive ⟨k, hkj, b, hb, hdev⟩
  by_cases hj : j = i
  · subst hj
    rw [put_self] at ha
    rw [put_of_ne hkj] at hb
    exact hown a ha hexclusive ⟨k, hkj, b, hb, hdev⟩
  · rw [put_of_ne hj] at ha
    by_cases hk : k = i
    · subst hk
      rw [put_self] at hb
      exact hothers b hb j hj a ha hexclusive hdev.symm
    · rw [put_of_ne hk] at hb
      exact h j a ha hexclusive ⟨k, hkj, b, hb, hdev⟩

/-- Changes of a file that do not make it exclusive. -/
theorem Alone.modify (h : σ.Alone) {a a' : Session} (ha : a ∈ σ i) (hdev : a'.dev = a.dev)
    (hexclusive : a'.exclusive = true → a.exclusive = true) : (σ.put i (some a')).Alone := by
  apply h.put
  · intro b hb hb'
    obtain rfl := Option.some.inj hb
    rw [hdev]
    exact h i a ha (hexclusive hb')
  · intro b hb j hj c hc hc'
    obtain rfl := Option.some.inj hb
    intro heq
    exact h j c hc hc' ⟨i, hj.symm, a, ha, by rw [← hdev, heq]⟩

/-- Without a session fewer can share a device. -/
theorem Alone.release (h : σ.Alone) (i : Fin n) : (σ.release i).Alone := by
  rw [Sessions.release]
  split
  · exact h.put (by simp) (by simp)
  · exact h

/-- A file that is opened gets the lowest free descriptor, and its device is not locked. -/
theorem openOn_cases (devices : Devices) (σ : Sessions n) (d : DevId) (isafs : Bool)
    (flags : UInt32) (opened : Answer) :
    (∃ e, σ.openOn devices d isafs flags opened = (.error e, σ)) ∨
      ∃ i, σ.lowest = some i ∧ (isafs = false → ¬ σ.Locked d) ∧
        σ.openOn devices d isafs flags opened =
          (.ok i, σ.put i (some (Session.opened d isafs flags))) := by
  rw [openOn]
  cases hlowest : σ.lowest with
  | none => exact Or.inl ⟨_, rfl⟩
  | some i =>
    by_cases hlocked : isafs = false ∧ σ.Locked d
    · exact Or.inl ⟨_, if_pos hlocked⟩
    · dsimp only
      rw [if_neg hlocked]
      cases Files.callDev (devices d).hasOpen opened (.ok 0) with
      | ok _ => exact Or.inr ⟨i, rfl, fun hd h => hlocked ⟨hd, h⟩, rfl⟩
      | error e => exact Or.inl ⟨e, rfl⟩

/-- A new session shares no device that is locked. -/
theorem Alone.putOpened (h : σ.Alone) {d : DevId} (hlocked : ¬ σ.Locked d) (isafs : Bool)
    (flags : UInt32) : (σ.put i (some (Session.opened d isafs flags))).Alone := by
  apply h.put
  · intro a ha hexclusive
    obtain rfl := Option.some.inj ha
    cases hexclusive
  · intro a ha j _ b hb hexclusive heq
    obtain rfl := Option.some.inj ha
    exact hlocked ⟨j, b, hb, heq, hexclusive⟩

/-- The file that was opened last moves to another descriptor. -/
theorem Alone.redirect (h : σ.Alone) {i old : Fin n} {a : Session} (ha : a ∈ σ old)
    (hexclusive : a.exclusive = false) : (σ.redirect i old).Alone := by
  rw [Sessions.redirect]
  apply Alone.release
  apply h.put
  · intro b hb hb'
    rw [Option.mem_unique hb ha, hexclusive] at hb'
    cases hb'
  · intro b hb j _ c hc hc' heq
    obtain rfl := Option.mem_unique hb ha
    by_cases hj : j = old
    · subst hj
      rw [Option.mem_unique hc ha, hexclusive] at hc'
      cases hc'
    · exact h j c hc hc' ⟨old, Ne.symm hj, b, ha, heq.symm⟩

/-- A lock is given only to a session that is alone on its device. -/
theorem Alone.lock (h : σ.Alone) (i : Fin n) (a : Session) : (σ.lock i a).2.Alone := by
  rw [Sessions.lock]
  split
  · exact h
  · rename_i hshared
    apply h.put
    · intro b hb _
      obtain rfl := Option.some.inj hb
      exact hshared
    · intro b hb j hj c hc hc' heq
      obtain rfl := Option.some.inj hb
      exact hshared ⟨j, hj, c, hc, heq⟩

/-- What holds of all files holds after a change that puts such a file. -/
theorem forall_put {P : Session → Prop} (h : ∀ j, ∀ a ∈ σ j, P a) {session : Option Session}
    (hsession : ∀ a ∈ session, P a) : ∀ j, ∀ a ∈ σ.put i session j, P a := by
  intro j a ha
  by_cases hj : j = i
  · subst hj
    rw [put_self] at ha
    exact hsession a ha
  · rw [put_of_ne hj] at ha
    exact h j a ha

/-- What holds of all sessions holds after a release. -/
theorem forall_release {P : Session → Prop} (h : ∀ j, ∀ a ∈ σ j, P a) (i : Fin n) :
    ∀ j, ∀ a ∈ σ.release i j, P a := by
  rw [Sessions.release]
  split
  · exact forall_put h (by simp)
  · exact h

/-- Only listed devices have exclusive files, and these are alone. -/
structure Orderly (σ : Sessions n) (directory : List DevId) : Prop where
  alone : σ.Alone
  listed : ∀ i, ∀ a ∈ σ i, a.isDevice = true → a.dev ∈ directory
  devices : ∀ i, ∀ a ∈ σ i, a.exclusive = true → a.isDevice = true

section Orderly

variable {directory : List DevId}

/-- What is not a device is not locked. -/
theorem Orderly.not_locked (h : σ.Orderly directory) {d : DevId} (hd : d ∉ directory) :
    ¬ σ.Locked d := by
  rintro ⟨i, a, ha, rfl, hexclusive⟩
  exact hd (h.listed i a ha (h.devices i a ha hexclusive))

/-- Opening a file of a listed device, or of a file system, which is not listed. -/
theorem Orderly.openOn (h : σ.Orderly directory) {d : DevId} {isafs : Bool}
    (hd : isafs = false ↔ d ∈ directory) (devices : Devices) (flags : UInt32)
    (opened : Answer) : (σ.openOn devices d isafs flags opened).2.Orderly directory := by
  rcases openOn_cases devices σ d isafs flags opened with ⟨e, heq⟩ | ⟨i, -, hfree, heq⟩
  · rw [heq]
    exact h
  · have hlocked : ¬ σ.Locked d := by
      by_cases hisafs : isafs = false
      · exact hfree hisafs
      · exact h.not_locked (mt hd.mpr hisafs)
    rw [heq]
    exact
      { alone := h.alone.putOpened hlocked isafs flags
        listed := forall_put h.listed fun a ha hdevice => by
          obtain rfl := Option.some.inj ha
          exact hd.mp (by simpa [Session.opened] using hdevice)
        devices := forall_put h.devices fun a ha hexclusive => by
          obtain rfl := Option.some.inj ha
          cases hexclusive }

/-- A release keeps the sessions orderly. -/
theorem Orderly.release (h : σ.Orderly directory) (i : Fin n) :
    (σ.release i).Orderly directory where
  alone := h.alone.release i
  listed := forall_release h.listed i
  devices := forall_release h.devices i

/-- A redirection of a session that is not exclusive keeps the sessions orderly. -/
theorem Orderly.redirect (h : σ.Orderly directory) {i old : Fin n} {a : Session}
    (ha : a ∈ σ old) (hexclusive : a.exclusive = false) :
    (σ.redirect i old).Orderly directory where
  alone := h.alone.redirect ha hexclusive
  listed := forall_release (forall_put h.listed fun b hb => h.listed old b hb) old
  devices := forall_release (forall_put h.devices fun b hb => h.devices old b hb) old

/-- A lock of a device keeps the sessions orderly. -/
theorem Orderly.lock (h : σ.Orderly directory) {i : Fin n} {a : Session} (ha : a ∈ σ i)
    (hdevice : a.isDevice = true) : (σ.lock i a).2.Orderly directory := by
  refine ⟨h.alone.lock i a, ?_, ?_⟩
  · rw [Sessions.lock]
    split
    · exact h.listed
    · exact forall_put h.listed fun b hb => by
        obtain rfl := Option.some.inj hb
        exact h.listed i a ha
  · rw [Sessions.lock]
    split
    · exact h.devices
    · exact forall_put h.devices fun b hb _ => by
        obtain rfl := Option.some.inj hb
        exact hdevice

/-- Changes of a file that do not make it exclusive or change what it is a file of. -/
theorem Orderly.modify (h : σ.Orderly directory) {i : Fin n} {a a' : Session} (ha : a ∈ σ i)
    (hdev : a'.dev = a.dev) (hdevice : a'.isDevice = a.isDevice)
    (hexclusive : a'.exclusive = true → a.exclusive = true) :
    (σ.put i (some a')).Orderly directory where
  alone := h.alone.modify ha hdev hexclusive
  listed := forall_put h.listed fun b hb => by
    obtain rfl := Option.some.inj hb
    rw [hdev, hdevice]
    exact h.listed i a ha
  devices := forall_put h.devices fun b hb hb' => by
    obtain rfl := Option.some.inj hb
    rw [hdevice]
    exact h.devices i a ha (hexclusive hb')

end Orderly

end Sessions

namespace Service

variable {n : Nat} {devices : Devices} {t : Service n}

/-- The files are orderly, and no device is also a file system. -/
structure Orderly (t : Service n) : Prop where
  files : t.sessions.Orderly t.directory
  apart : ∀ d ∈ t.directory, d ∉ t.volumes

/-- At first no session is that of a device, or exclusive. -/
theorem init_plain (i : Fin n) : ∀ a ∈ (init n).sessions i,
    a.isDevice = false ∧ a.exclusive = false := by
  intro a ha
  simp only [init, Option.mem_def, Option.ite_none_right_eq_some] at ha
  rw [← Option.some.inj ha.2]
  exact ⟨rfl, rfl⟩

/-- At first the sessions are orderly. -/
theorem orderly_init : (init n).Orderly where
  files :=
    { alone := fun i a ha hexclusive => by
        rw [(init_plain i a ha).2] at hexclusive
        cases hexclusive
      listed := fun i a ha hdevice => by
        rw [(init_plain i a ha).1] at hdevice
        cases hdevice
      devices := fun i a ha hexclusive => by
        rw [(init_plain i a ha).2] at hexclusive
        cases hexclusive }
  apart := by simp [init]

/-- A call that changes the sessions only. -/
theorem Orderly.answer (h : t.Orderly) {res : Answer × Sessions n}
    (hres : res.2.Orderly t.directory) : (t.answer res).Orderly :=
  ⟨hres, h.apart⟩

/-- A call with a descriptor. -/
theorem Orderly.onFile (h : t.Orderly) {fildes : Int}
    {act : Fin n → Session → Answer × Sessions n}
    (hact : ∀ i, ∀ a ∈ t.sessions i, (act i a).2.Orderly t.directory) :
    (t.onFile fildes act).Orderly := by
  rw [Service.onFile]
  split
  · rename_i i _
    split
    · rename_i a ha
      exact h.answer (hact i a ha)
    · exact h
  · exact h.answer h.files

/-- What a name is found as. -/
theorem Orderly.resolve (h : t.Orderly) {file : Name} {d : DevId} {isafs : Bool}
    (hfound : t.resolve devices file = some (d, isafs)) :
    isafs = false ↔ d ∈ t.directory := by
  rw [Service.resolve] at hfound
  split at hfound
  · rename_i d' hd'
    obtain ⟨rfl, rfl⟩ := Prod.mk.inj (Option.some.inj hfound)
    exact iff_of_true rfl (List.mem_of_find?_eq_some hd')
  · obtain ⟨d', hd', heq⟩ := Option.map_eq_some_iff.mp hfound
    obtain ⟨rfl, rfl⟩ := Prod.mk.inj heq
    have hvolume := List.mem_of_find?_eq_some hd'
    exact iff_of_false (by simp) fun hmem => h.apart _ hmem hvolume

/-- An open keeps the sessions orderly. -/
theorem Orderly.openFile (h : t.Orderly) (devices : Devices) (file : Name) (flags : UInt32)
    (opened : Answer) : (t.openFile devices file flags opened).2.Orderly t.directory := by
  rw [Service.openFile]
  split
  · rename_i res hres
    exact h.files.openOn (h.resolve hres) devices flags opened
  · exact h.files

/-- A file that was opened is not exclusive. -/
theorem openFile_ok {file : Name} {flags : UInt32} {opened : Answer} {i : Fin n}
    {σ : Sessions n} (hopen : t.openFile devices file flags opened = (.ok i, σ)) :
    ∃ a ∈ σ i, a.exclusive = false := by
  rw [openFile] at hopen
  split at hopen
  · rename_i res _
    rcases Sessions.openOn_cases devices t.sessions res.1 res.2 flags opened with
      ⟨e, heq⟩ | ⟨j, -, -, heq⟩
    · rw [heq] at hopen
      cases hopen
    · rw [heq] at hopen
      obtain ⟨hi, rfl⟩ := Prod.mk.inj hopen
      obtain rfl := Except.ok.inj hi
      exact ⟨_, Sessions.put_self _ _ _, rfl⟩
  · cases hopen

/-- Every call keeps exclusive files alone on their devices. -/
theorem Orderly.step (h : t.Orderly) {call : FileCall n} (hnew : t.New call) :
    (t.step devices call).Orderly := by
  cases call with
  | devReg dev =>
    cases dev with
    | none => exact h.answer h.files
    | some d =>
      rw [Service.step]
      split
      · refine ⟨⟨h.files.alone, ?_, h.files.devices⟩, ?_⟩
        · exact fun i a ha hdevice => List.mem_cons_of_mem _ (h.files.listed i a ha hdevice)
        · intro e he
          rcases List.mem_cons.mp he with rfl | he
          · exact hnew _ rfl
          · exact h.apart e he
      · exact h.answer h.files
  | fsReg d =>
    rw [Service.step]
    split
    · refine ⟨h.files, ?_⟩
      intro e he hmem
      rcases List.mem_cons.mp hmem with rfl | hmem
      · exact hnew he
      · exact h.apart e he hmem
    · exact h.answer h.files
  | openFile file flags opened => exact h.answer (h.openFile devices file flags opened)
  | close fildes closed => exact h.onFile fun i _ _ => h.files.release i
  | ioctl fildes req answered =>
    refine h.onFile fun i a ha => ?_
    split
    · rename_i hreq
      exact h.files.lock ha hreq.1
    · split
      · exact h.files.modify ha rfl rfl (by simp)
      · exact h.files
  | read file done => exact h.onFile fun _ _ _ => h.files
  | write file done => exact h.onFile fun _ _ _ => h.files
  | fcntl file cmd =>
    refine h.onFile fun i a ha => ?_
    cases cmd with
    | getFl => exact h.files
    | setFl flags => exact h.files.modify ha rfl rfl id
    | other => exact h.files
  | openFd std name flags opened =>
    have hfiles := h.openFile devices name flags opened
    rw [Service.step]
    split
    · rename_i old σ hopen
      obtain ⟨a, ha, hexclusive⟩ := openFile_ok hopen
      rw [hopen] at hfiles
      exact h.answer (hfiles.redirect ha hexclusive)
    · rename_i e σ hopen
      rw [hopen] at hfiles
      exact h.answer hfiles

end Service

end Hal
end RadonMCU

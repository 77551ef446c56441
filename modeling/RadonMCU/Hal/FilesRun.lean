import Mathlib.Data.List.Find
import RadonMCU.Hal.FilePool

/-!
# The file descriptors give their service

Main results:

- Theorem {lit}`Listed.step`: every call keeps the lists of devices and file systems, so a
  search in them ends.
- Theorem {lit}`Agrees.step`: every call but a blind lock has the answer and the effect that the
  service has.
- Theorem {lit}`answers_run_iff`: no search of a run goes astray, and the answers are those of
  the service exactly when no lock of the run is blind.
- Theorem {lit}`exclusive_run_iff`: exclusive files are alone throughout a run exactly when no
  lock of the run is blind.
-/

namespace RadonMCU
namespace Hal

open LinkedRing WordBits

variable {n : Nat} {devices : Devices} {s : FileSystem n} {t : Service n}

/-! ## The lists of devices and file systems -/

/-- The lists hold the devices and the file systems, each registered once, and no search has
gone astray. -/
structure Listed (s : FileSystem n) (ds vs : List DevId) : Prop where
  directory : Holds s.files.links .altDevList (ds.map .dev)
  volumes : Holds s.files.links .altFsList (vs.map .dev)
  registered : s.registered.Perm (ds ++ vs)
  apart : ∀ d ∈ ds, d ∉ vs
  hung : s.hung = false

section Lists

variable {ds vs : List DevId}

theorem listed_init (n : Nat) : Listed (FileSystem.init n) [altDevNull] [] where
  directory := ⟨by simp, by simp [FileSystem.init, LinkedRing.Path]⟩
  volumes := ⟨by simp, by simp [FileSystem.init, LinkedRing.Path]⟩
  registered := List.Perm.refl _
  apart := by simp
  hung := rfl

/-- A call that leaves the lists as they are. -/
theorem Listed.answer (h : Listed s ds vs) {res : Answer × Files n}
    (hlinks : res.2.links = s.files.links) : Listed (s.answer res) ds vs where
  directory := by
    rw [FileSystem.answer, hlinks]
    exact h.directory
  volumes := by
    rw [FileSystem.answer, hlinks]
    exact h.volumes
  registered := h.registered
  apart := h.apart
  hung := h.hung

/-- A registration that is refused is only answered. -/
theorem FileSystem.register_error (s : FileSystem n) (dev : Option DevId) (e : Errno) :
    s.register dev (.error e, s.files) = s.answer (.error e, s.files) := by
  rw [FileSystem.register, if_neg (by simp)]
  rfl

/-- A registration that is refused leaves the lists. -/
theorem Listed.refuse (h : Listed s ds vs) (dev : Option DevId) (e : Errno) :
    Listed (s.register dev (.error e, s.files)) ds vs := by
  rw [s.register_error]
  exact h.answer rfl

/-- The cells of a list are none of another list and its new device. -/
theorem cells_apart {head head' : Cell} (hne : head' ≠ head) (hhead : ∀ d, .dev d ≠ head)
    (hhead' : ∀ d, .dev d ≠ head') {d : DevId} {ds es : List DevId} (hd : d ∉ es)
    (hapart : ∀ e ∈ es, e ∉ ds) :
    ∀ y ∈ head' :: es.map .dev, y ∉ .dev d :: head :: ds.map .dev := by
  intro y hy hmem
  rcases List.mem_cons.mp hy with rfl | hy
  · simp only [List.mem_cons, List.mem_map] at hmem
    rcases hmem with heq | heq | ⟨e, -, heq⟩
    · exact hhead' d heq.symm
    · exact hne heq
    · exact hhead' e heq
  · obtain ⟨e, he, rfl⟩ := List.mem_map.mp hy
    simp only [List.mem_cons, List.mem_map, Cell.dev.injEq, exists_eq_right] at hmem
    rcases hmem with rfl | heq | hmem
    · exact hd he
    · exact hhead e heq
    · exact hapart e he hmem

/-- What is not registered is on neither list. -/
theorem Listed.not_registered (h : Listed s ds vs) {d : DevId}
    (hd : d ∉ s.registered) : d ∉ ds ∧ d ∉ vs := by
  rw [h.registered.mem_iff, List.mem_append, not_or] at hd
  exact hd

/-- A new device is put in front of its list. -/
theorem Listed.insertDev (h : Listed s ds vs) {d : DevId} (hd : d ∉ s.registered) :
    Listed (s.register (some d)
      (.ok 0, { s.files with links := insert s.files.links .altDevList (.dev d) }))
      (d :: ds) vs := by
  obtain ⟨hdirectory, hvolumes⟩ := h.not_registered hd
  exact
    { directory := h.directory.insert (by simp [hdirectory])
      volumes := h.volumes.insert_other h.directory (by simp) (cells_apart (by simp)
        (by simp) (by simp) hvolumes fun e he hmem => h.apart e hmem he)
      registered := h.registered.cons d
      apart := List.forall_mem_cons.mpr ⟨hvolumes, h.apart⟩
      hung := h.hung }

/-- A new file system is put in front of its list. -/
theorem Listed.insertFs (h : Listed s ds vs) {d : DevId} (hd : d ∉ s.registered) :
    Listed (s.register (some d)
      (.ok 0, { s.files with links := insert s.files.links .altFsList (.dev d) }))
      ds (d :: vs) := by
  obtain ⟨hdirectory, hvolumes⟩ := h.not_registered hd
  exact
    { directory := h.directory.insert_other h.volumes (by simp) (cells_apart (by simp)
        (by simp) (by simp) hdirectory h.apart)
      volumes := h.volumes.insert (by simp [hvolumes])
      registered := (h.registered.cons d).trans List.perm_middle.symm
      apart := fun e he => List.not_mem_cons_of_ne_of_not_mem
        (fun heq => hdirectory (heq ▸ he)) (h.apart e he)
      hung := h.hung }

/-- The search for a device ends within the turns there are devices. -/
theorem Listed.altFindDev (h : Listed s ds vs) (file : Name) :
    altFindDev devices s.files.links s.registered.length file =
      some (ds.find? fun d => (devices d).isNamed file) := by
  have hlength : ds.length ≤ s.registered.length := by
    rw [h.registered.length_eq, List.length_append]
    omega
  rw [Hal.altFindDev, findLoop_spec _ (by simp) h.directory.path hlength]

/-- The search for a file system ends within the turns there are file systems. -/
theorem Listed.altFindFile (h : Listed s ds vs) (file : Name) :
    altFindFile devices s.files.links s.registered.length file =
      some (vs.find? fun d => (devices d).isMountOf file) := by
  have hlength : vs.length ≤ s.registered.length := by
    rw [h.registered.length_eq, List.length_append]
    omega
  rw [Hal.altFindFile, findLoop_spec _ (by simp) h.volumes.path hlength]

/-- An open returns, and leaves the lists as they are. -/
theorem Listed.altOpen (h : Listed s ds vs) (devices : Devices) (file : Name)
    (flags : UInt32) (opened : Answer) :
    ∃ res, s.files.altOpen devices s.registered.length file flags opened = some res ∧
      res.2.links = s.files.links := by
  have hfound : ∃ found, s.files.altFind devices s.registered.length file = some found := by
    rw [Files.altFind, h.altFindDev, h.altFindFile]
    cases ds.find? fun d => (devices d).isNamed file with
    | some d => exact ⟨_, rfl⟩
    | none => exact ⟨_, rfl⟩
  obtain ⟨found, hfound⟩ := hfound
  rw [Files.altOpen, hfound]
  exact ⟨_, rfl, Files.openDev_links devices s.files found.1 found.2 flags opened⟩

/-- Every call keeps the lists, a blind lock included. -/
theorem Listed.step (h : Listed s ds vs) {call : FileCall n}
    (hallowed : s.Allowed devices call) :
    ∃ ds vs, Listed (s.step devices call) ds vs := by
  cases call with
  | devReg dev =>
    cases dev with
    | none => exact ⟨ds, vs, h.refuse none .eInval⟩
    | some d =>
      rw [FileSystem.step, Files.altDevReg]
      by_cases hname : (devices d).name.isSome
      · simp only [if_pos hname]
        exact ⟨_, _, h.insertDev (hallowed d rfl)⟩
      · simp only [if_neg hname]
        exact ⟨ds, vs, h.refuse (some d) .eInval⟩
  | fsReg d =>
    rw [FileSystem.step, Files.altFsReg]
    by_cases hname : (devices d).name.isSome
    · simp only [if_pos hname]
      exact ⟨_, _, h.insertFs hallowed.1⟩
    · simp only [if_neg hname]
      exact ⟨ds, vs, h.refuse (some d) .eNodev⟩
  | openFile file flags opened =>
    obtain ⟨res, hopen, hlinks⟩ := h.altOpen devices file flags opened
    rw [FileSystem.step, hopen]
    exact ⟨ds, vs, h.answer hlinks⟩
  | close fildes closed =>
    exact ⟨ds, vs, h.answer (Files.altClose_links devices _ fildes closed)⟩
  | ioctl fildes req answered =>
    exact ⟨ds, vs, h.answer (Files.altIoctl_links devices _ fildes req answered)⟩
  | read file done => exact ⟨ds, vs, h.answer rfl⟩
  | write file done => exact ⟨ds, vs, h.answer rfl⟩
  | fcntl file cmd => exact ⟨ds, vs, h.answer (Files.altFcntl_links _ file cmd)⟩
  | openFd std name flags opened =>
    obtain ⟨res, hopen, hlinks⟩ := h.altOpen devices name flags opened
    rw [FileSystem.step, Files.altOpenFd, hopen]
    cases res with
    | mk out files =>
      cases out with
      | error e => exact ⟨ds, vs, h.answer hlinks⟩
      | ok old =>
        refine ⟨ds, vs, h.answer ?_⟩
        rw [Files.altReleaseFd_links]
        exact hlinks

end Lists

/-- No search goes astray in a run whose callers register each device once. -/
theorem hung_run {calls : List (FileCall n)}
    (hallowed : StepSystem.Meets (FileSystem.step devices) (FileSystem.Allowed devices)
      (FileSystem.init n) calls) :
    ((FileSystem.init n).run devices calls).hung = false := by
  obtain ⟨ds, vs, h⟩ := StepSystem.run_invariant_of_meets
    (P := fun s => ∃ ds vs, Listed s ds vs)
    (fun _ _ ⟨_, _, h⟩ hcall => h.step hcall) ⟨_, _, listed_init n⟩ hallowed
  exact h.hung

/-! ## The calls one by one -/

/-- The files and the service agree: on the lists of devices and file systems, on the open
files and on the answers so far. -/
structure Agrees (devices : Devices) (s : FileSystem n) (t : Service n) : Prop
    extends Listed s t.directory t.volumes where
  mounts : ∀ d ∈ t.volumes, ∀ own ∈ (devices d).name, own.text ≠ []
  files : s.files.Serves t.sessions
  answers : s.answers = t.answers

theorem agrees_init (devices : Devices) (n : Nat) :
    Agrees devices (FileSystem.init n) (Service.init n) where
  toListed := listed_init n
  mounts := by simp [Service.init]
  files :=
    { session := fun i => by
        by_cases hi : i.val < 3
        · simp [FileSystem.init, Service.init, Fd.session, hi]
          decide
        · simp [FileSystem.init, Service.init, Fd.session, hi]
      std := fun i hi => by simp [Service.init, hi]
      le_max := fun i hi hsome => by simp [Service.init, Nat.not_lt.mpr hi] at hsome
      max_lt := Int.lt_of_lt_of_le (show (-1 : Int) < 0 by decide) (Int.natCast_nonneg n)
      device := fun i a ha hdevice => by
        rw [(Service.init_plain i a ha).1] at hdevice
        cases hdevice }
  answers := rfl

section Calls

/-- A call that leaves the lists as they are. -/
theorem Agrees.answer (h : Agrees devices s t) {res : Answer × Files n}
    {out : Answer × Sessions n} (hanswer : res.1 = out.1) (hfiles : res.2.Serves out.2)
    (hlinks : res.2.links = s.files.links) : Agrees devices (s.answer res) (t.answer out) where
  toListed := h.toListed.answer hlinks
  mounts := h.mounts
  files := hfiles
  answers := by rw [FileSystem.answer, Service.answer, h.answers, hanswer]

/-- The search for the owner of a name ends and finds what the service finds. -/
theorem Agrees.altFind (h : Agrees devices s t) (file : Name) :
    s.files.altFind devices s.registered.length file =
      some (match t.resolve devices file with
        | some (d, isafs) => (some d, isafs)
        | none => (none, true)) := by
  have hdev : altFindDev devices s.files.links s.registered.length file =
      some (t.directory.find? fun d => (devices d).name.any fun own => own.text = file.text) := by
    rw [h.altFindDev]
    congr 2
    funext d
    exact Bool.eq_iff_iff.mpr isNamed_iff
  have hfs : altFindFile devices s.files.links s.registered.length file =
      some (t.volumes.find? fun d =>
        (devices d).name.any fun own => decide (Covers (mountPoint own.text) file.text)) := by
    rw [h.altFindFile]
    congr 1
    apply List.find?_congr
    intro d hd
    exact Bool.eq_iff_iff.mpr (isMountOf_iff (h.mounts d hd))
  rw [Files.altFind, hdev, hfs, Service.resolve]
  cases t.directory.find? fun d => (devices d).name.any fun own => own.text = file.text with
  | some d => rfl
  | none =>
    cases t.volumes.find? fun d =>
        (devices d).name.any fun own => decide (Covers (mountPoint own.text) file.text) with
    | some d => rfl
    | none => rfl

theorem Agrees.altOpen (h : Agrees devices s t) (hn : n ≤ 2147483648) (file : Name)
    (flags : UInt32) (opened : Answer) :
    ∃ files, s.files.altOpen devices s.registered.length file flags opened =
        some ((t.openFile devices file flags opened).1, files) ∧
      files.Serves (t.openFile devices file flags opened).2 ∧
      files.links = s.files.links := by
  rw [Files.altOpen, h.altFind, Service.openFile]
  cases t.resolve devices file with
  | none => exact ⟨s.files, rfl, h.files, rfl⟩
  | some found =>
    obtain ⟨files, hopen, hserves, hlinks⟩ :=
      h.files.openDev hn devices found.1 found.2 flags opened
    exact ⟨files, congrArg some hopen, hserves, hlinks⟩

theorem valid_open {fildes : Int} (hvalid : s.Valid fildes) {i : Fin n}
    (hi : Files.fdOf n fildes = some i) : (s.files.altFdList i).dev.isSome := by
  rcases hvalid with hneg | ⟨j, hj, hopen⟩
  · rw [Files.fdOf, dif_neg (by omega)] at hi
    cases hi
  · exact Option.mem_unique hj hi ▸ hopen

theorem Agrees.session_of_open (h : Agrees devices s t) {i : Fin n}
    (hopen : (s.files.altFdList i).dev.isSome) : ∃ a, t.sessions i = some a := by
  rw [← Option.isSome_iff_exists, ← h.files.session i, Fd.session, Option.isSome_map]
  exact hopen

/-- A call with a descriptor. -/
theorem Agrees.onFile (h : Agrees devices s t) {fildes : Int} (hvalid : s.Valid fildes)
    {res : Answer × Files n} {act : Fin n → Session → Answer × Sessions n}
    (hnone : Files.fdOf n fildes = none → res = (.error .eBadfd, s.files))
    (hsome : ∀ i, Files.fdOf n fildes = some i → ∀ a ∈ t.sessions i,
      res.1 = (act i a).1 ∧ res.2.Serves (act i a).2 ∧ res.2.links = s.files.links) :
    Agrees devices (s.answer res) (t.onFile fildes act) := by
  rw [Service.onFile]
  cases hfd : Files.fdOf n fildes with
  | none =>
    rw [hnone hfd]
    exact h.answer rfl h.files rfl
  | some i =>
    obtain ⟨a, ha⟩ := h.session_of_open (valid_open hvalid hfd)
    obtain ⟨hanswer, hfiles, hlinks⟩ := hsome i hfd a ha
    simp only [ha]
    exact h.answer hanswer hfiles hlinks

/-- The device of an open file. -/
theorem Agrees.dev_eq (h : Agrees devices s t) {i : Fin n} {a : Session}
    (ha : a ∈ t.sessions i) : (s.files.altFdList i).dev = some a.dev := by
  have hsession := h.files.session i
  rw [Option.mem_def.mp ha] at hsession
  obtain ⟨d, hd, rfl⟩ := Option.map_eq_some_iff.mp hsession
  exact hd

theorem Agrees.hasCall_eq (h : Agrees devices s t) {i : Fin n} {a : Session}
    (ha : a ∈ t.sessions i) (has : Dev → Bool) :
    Files.hasCall devices (s.files.altFdList i) has = has (devices a.dev) := by
  rw [Files.hasCall, h.dev_eq ha]
  rfl

theorem Agrees.device_iff (h : Agrees devices s t) {i : Fin n} {a : Session}
    (ha : a ∈ t.sessions i) :
    (s.files.altFdList i).fdFlags &&& altFdDev ≠ 0 ↔ a.isDevice = true := by
  have hsession := h.files.session i
  rw [Option.mem_def.mp ha] at hsession
  obtain ⟨d, -, rfl⟩ := Option.map_eq_some_iff.mp hsession
  exact altFdDev_iff

/-- A registration that is refused. -/
theorem Agrees.refuse (h : Agrees devices s t) (dev : Option DevId) (e : Errno) :
    Agrees devices (s.register dev (.error e, s.files)) (t.answer (.error e, t.sessions)) := by
  rw [s.register_error]
  exact h.answer rfl h.files rfl

/-- A device is put in front of its list. -/
theorem Agrees.devReg (h : Agrees devices s t) (dev : Option DevId)
    (hallowed : s.Allowed devices (.devReg dev)) :
    Agrees devices (s.step devices (.devReg dev)) (t.step devices (.devReg dev)) := by
  cases dev with
  | none => exact h.refuse none .eInval
  | some d =>
    rw [FileSystem.step, Files.altDevReg, Service.step]
    by_cases hname : (devices d).name.isSome
    · simp only [if_pos hname]
      exact
        { toListed := h.toListed.insertDev (hallowed d rfl)
          mounts := h.mounts
          files := h.files.setLinks _
          answers := congrArg (· ++ _) h.answers }
    · simp only [if_neg hname]
      exact h.refuse (some d) .eInval

/-- A file system is put in front of its list. -/
theorem Agrees.fsReg (h : Agrees devices s t) {d : DevId}
    (hallowed : s.Allowed devices (.fsReg d)) :
    Agrees devices (s.step devices (.fsReg d)) (t.step devices (.fsReg d)) := by
  rw [FileSystem.step, Files.altFsReg, Service.step]
  by_cases hname : (devices d).name.isSome
  · simp only [if_pos hname]
    exact
      { toListed := h.toListed.insertFs hallowed.1
        mounts := List.forall_mem_cons.mpr ⟨hallowed.2, h.mounts⟩
        files := h.files.setLinks _
        answers := congrArg (· ++ _) h.answers }
  · simp only [if_neg hname]
    exact h.refuse (some d) .eNodev

theorem Agrees.transfer_eq (h : Agrees devices s t) {file : Int} {i : Fin n} {a : Session}
    (hi : Files.fdOf n file = some i) (ha : a ∈ t.sessions i) (has : Dev → Bool)
    (refused : UInt32) (done : Answer) :
    Files.transfer devices has refused s.files file done =
      if a.flags &&& oAccmode ≠ refused ∧ has (devices a.dev) then done
      else .error .eAcces := by
  have hmem : a ∈ (s.files.altFdList i).session := by
    rw [h.files.session i]
    exact ha
  rw [Files.transfer, hi]
  dsimp only
  rw [h.hasCall_eq ha, session_accmode hmem]

theorem Agrees.ioctl (h : Agrees devices s t) {fildes : Int} (hvalid : s.Valid fildes)
    {req : UInt32} {answered : Answer} (hblind : ¬ s.Blind (.ioctl fildes req answered)) :
    Agrees devices (s.step devices (.ioctl fildes req answered))
      (t.step devices (.ioctl fildes req answered)) := by
  refine h.onFile hvalid (fun hnone => by rw [Files.altIoctl, hnone]) fun i hi a ha => ?_
  have hdevice := h.device_iff ha
  have hmem : a ∈ (s.files.altFdList i).session := by
    rw [h.files.session i]
    exact ha
  simp only [Files.altIoctl, hi, h.hasCall_eq ha, hdevice]
  by_cases hlock : a.isDevice = true ∧ req = tiocexcl
  · rw [if_pos hlock, if_pos hlock]
    have honly : ¬ s.files.OnlyTop i := fun honly =>
      hblind ⟨hlock.2, i, hi, hdevice.mpr hlock.1, honly⟩
    obtain ⟨hanswer, hfiles⟩ := h.files.altFdLock ha hlock.1 honly
    exact ⟨hanswer, hfiles, Files.altFdLock_links _ _⟩
  · rw [if_neg hlock, if_neg hlock]
    by_cases hunlock : a.isDevice = true ∧ req = tiocnxcl
    · rw [if_pos hunlock, if_pos hunlock]
      exact ⟨rfl, h.files.modify ha (session_unlock hmem) rfl, rfl⟩
    · rw [if_neg hunlock, if_neg hunlock]
      exact ⟨rfl, h.files, rfl⟩

theorem Agrees.fcntl (h : Agrees devices s t) {file : Int} (hvalid : s.Valid file)
    (cmd : Files.FcntlCmd) :
    Agrees devices (s.step devices (.fcntl file cmd)) (t.step devices (.fcntl file cmd)) := by
  refine h.onFile hvalid (fun hnone => by rw [Files.altFcntl, hnone]) fun i hi a ha => ?_
  have hmem : a ∈ (s.files.altFdList i).session := by
    rw [h.files.session i]
    exact ha
  simp only [Files.altFcntl, hi]
  cases cmd with
  | getFl =>
    obtain ⟨d, -, rfl⟩ := Option.map_eq_some_iff.mp hmem
    exact ⟨rfl, h.files, rfl⟩
  | setFl flags =>
    refine ⟨rfl, ?_, rfl⟩
    have hfiles := h.files.modify ha (session_fcntl flags hmem) rfl
    simpa [Files.setFlags, Files.setFd] using hfiles
  | other => exact ⟨rfl, h.files, rfl⟩

/-- Every call but a blind lock has the answer and the effect that the service has. -/
theorem Agrees.step (h : Agrees devices s t) (hn : n ≤ 2147483648) {call : FileCall n}
    (hallowed : s.Allowed devices call) (hblind : ¬ s.Blind call) :
    Agrees devices (s.step devices call) (t.step devices call) := by
  cases call with
  | devReg dev => exact h.devReg dev hallowed
  | fsReg dev => exact h.fsReg hallowed
  | openFile file flags opened =>
    obtain ⟨files, hopen, hserves, hlinks⟩ := h.altOpen hn file flags opened
    rw [FileSystem.step, hopen, Service.step]
    exact h.answer rfl hserves hlinks
  | close fildes closed =>
    refine h.onFile hallowed (fun hnone => by rw [Files.altClose, hnone]) fun i hi a ha => ?_
    rw [Files.altClose, hi]
    dsimp only
    rw [h.hasCall_eq ha]
    exact ⟨rfl, h.files.altReleaseFd i, Files.altReleaseFd_links _ _⟩
  | ioctl fildes req answered => exact h.ioctl hallowed hblind
  | read file done =>
    exact h.onFile hallowed (fun hnone => by rw [Files.altRead, Files.transfer, hnone])
      fun i hi a ha => ⟨h.transfer_eq hi ha _ _ _, h.files, rfl⟩
  | write file done =>
    exact h.onFile hallowed (fun hnone => by rw [Files.altWrite, Files.transfer, hnone])
      fun i hi a ha => ⟨h.transfer_eq hi ha _ _ _, h.files, rfl⟩
  | fcntl file cmd => exact h.fcntl hallowed cmd
  | openFd std name flags opened =>
    obtain ⟨files, hopen, hserves, hlinks⟩ := h.altOpen hn name flags opened
    rw [FileSystem.step, Files.altOpenFd, hopen, Service.step]
    cases hout : t.openFile devices name flags opened with
    | mk out σ =>
      rw [hout] at hserves
      cases out with
      | error e => exact h.answer rfl hserves hlinks
      | ok old =>
        obtain ⟨a, ha, -⟩ := Service.openFile_ok hout
        refine h.answer rfl (hserves.redirect hallowed ha) ?_
        rw [Files.altReleaseFd_links]
        exact hlinks

/-- A blind lock is given, though not by the service. -/
theorem Agrees.blind (h : Agrees devices s t) {call : FileCall n}
    (hallowed : s.Allowed devices call) (hblind : s.Blind call) :
    (s.step devices call).answers = s.answers ++ [.ok 0] ∧
      (t.step devices call).answers = t.answers ++ [.error .eAcces] := by
  cases call with
  | ioctl fildes req answered =>
    obtain ⟨hreq, i, hi, hdevice, honly⟩ := hblind
    obtain ⟨a, ha⟩ := h.session_of_open (valid_open hallowed hi)
    have hlock : a.isDevice = true ∧ req = tiocexcl := ⟨(h.device_iff ha).mp hdevice, hreq⟩
    obtain ⟨hgiven, hrefused⟩ := h.files.altFdLock_of_onlyTop ha honly
    constructor
    · rw [FileSystem.step, Files.altIoctl, Option.mem_def.mp hi]
      dsimp only
      rw [if_pos ⟨hdevice, hreq⟩, FileSystem.answer, hgiven]
    · rw [Service.step, Service.onFile, Option.mem_def.mp hi]
      simp only [ha, if_pos hlock, Service.answer, hrefused]
  | _ => exact hblind.elim

end Calls

/-! ## Runs -/

theorem FileSystem.answers_prefix (devices : Devices) (s : FileSystem n) (call : FileCall n) :
    s.answers <+: (s.step devices call).answers := by
  cases call with
  | openFile file flags opened =>
    rw [FileSystem.step]
    split
    · exact List.prefix_append _ _
    · exact List.prefix_refl _
  | openFd std name flags opened =>
    rw [FileSystem.step]
    split
    · exact List.prefix_append _ _
    · exact List.prefix_refl _
  | _ => exact List.prefix_append _ _

theorem Service.answers_prefix (devices : Devices) (t : Service n) (call : FileCall n) :
    t.answers <+: (t.step devices call).answers := by
  have honFile (fildes : Int) (act : Fin n → Session → Answer × Sessions n) :
      t.answers <+: (t.onFile fildes act).answers := by
    rw [Service.onFile]
    split
    · split
      · exact List.prefix_append _ _
      · exact List.prefix_refl _
    · exact List.prefix_append _ _
  cases call with
  | devReg dev =>
    cases dev with
    | none => exact List.prefix_append _ _
    | some d =>
      rw [Service.step]
      split <;> exact List.prefix_append _ _
  | fsReg d =>
    rw [Service.step]
    split <;> exact List.prefix_append _ _
  | openFile file flags opened => exact List.prefix_append _ _
  | openFd std name flags opened =>
    rw [Service.step]
    split <;> exact List.prefix_append _ _
  | _ => exact honFile _ _

/-- A descriptor that is marked as exclusive is the only one of its device. -/
def FileSystem.Exclusive (s : FileSystem n) : Prop :=
  ∀ i, (s.files.altFdList i).dev.isSome → (s.files.altFdList i).fdFlags &&& altFdExcl ≠ 0 →
    ∀ j, j ≠ i → (s.files.altFdList j).dev ≠ (s.files.altFdList i).dev

theorem Agrees.exclusive (h : Agrees devices s t) (halone : t.sessions.Alone) :
    s.Exclusive := by
  intro i hopen hexclusive j hj hdev
  obtain ⟨a, ha⟩ := h.session_of_open hopen
  have hsession := h.files.session i
  rw [ha] at hsession
  obtain ⟨d, -, rfl⟩ := Option.map_eq_some_iff.mp hsession
  exact halone i _ ha (altFdExcl_iff.mp hexclusive)
    ((h.files.shared_iff ha).mpr ⟨j, hj, hdev⟩)

/-- After a blind lock two descriptors share a device that one of them has to itself. -/
theorem not_exclusive_of_blind {call : FileCall n} (hallowed : s.Allowed devices call)
    (hblind : s.Blind call) : ¬ (s.step devices call).Exclusive := by
  intro hexclusive
  cases call with
  | ioctl fildes req answered =>
    obtain ⟨hreq, i, hi, hdevice, top, htop, hne, hothers⟩ := hblind
    have hopen := valid_open hallowed hi
    have hseen : ¬ ∃ j : Fin n, (j : Int) < s.files.altMaxFd ∧ j ≠ i ∧
        (s.files.altFdList j).dev = (s.files.altFdList i).dev := by
      rintro ⟨j, hlt, hj, hdev⟩
      rw [(hothers j hj).mp hdev, htop] at hlt
      exact Int.lt_irrefl _ hlt
    have hstep : (s.step devices (.ioctl fildes req answered)).files =
        s.files.setFlags i ((s.files.altFdList i).fdFlags ||| altFdExcl) := by
      rw [FileSystem.step, Files.altIoctl, Option.mem_def.mp hi]
      dsimp only
      rw [if_pos ⟨hdevice, hreq⟩, Files.altFdLock, if_neg hseen]
      rfl
    rw [FileSystem.Exclusive, hstep] at hexclusive
    have hi' := hexclusive i
    rw [Files.setFlags, Files.setFd_self] at hi'
    refine hi' hopen (altFdExcl_iff.mpr ?_) top hne ?_
    · simp [bit_altFdExcl]
    · rw [Files.setFd_of_ne hne]
      exact (hothers top hne).mpr rfl
  | _ => exact hblind

theorem Agrees.new (h : Agrees devices s t) {call : FileCall n}
    (hallowed : s.Allowed devices call) : t.New call := by
  cases call with
  | devReg dev => exact fun d hd => (h.not_registered (hallowed d hd)).2
  | fsReg d => exact (h.not_registered hallowed.1).1
  | _ => trivial

/-- No lock of the run is blind. -/
def Sighted (devices : Devices) (s : FileSystem n) (calls : List (FileCall n)) : Prop :=
  StepSystem.Meets (FileSystem.step devices) (fun s call => ¬ s.Blind call) s calls

instance (devices : Devices) (s : FileSystem n) : DecidablePred (Sighted devices s) := fun _ =>
  StepSystem.instDecidableMeets _ _

theorem Agrees.run (h : Agrees devices s t) (horderly : t.Orderly) (hn : n ≤ 2147483648)
    {calls : List (FileCall n)}
    (hallowed : StepSystem.Meets (FileSystem.step devices) (FileSystem.Allowed devices) s calls)
    (hsighted : Sighted devices s calls) :
    Agrees devices (s.run devices calls) (t.run devices calls) ∧
      (t.run devices calls).Orderly := by
  induction calls generalizing s t with
  | nil => exact ⟨h, horderly⟩
  | cons call calls ih =>
    exact ih (h.step hn hallowed.1 hsighted.1) (horderly.step (h.new hallowed.1))
      hallowed.2 hsighted.2

/-- The first blind lock of a run gets an answer that the service does not give. -/
theorem Agrees.sighted (h : Agrees devices s t) (hn : n ≤ 2147483648)
    {calls : List (FileCall n)}
    (hallowed : StepSystem.Meets (FileSystem.step devices) (FileSystem.Allowed devices) s calls)
    (hanswers : (s.run devices calls).answers = (t.run devices calls).answers) :
    Sighted devices s calls := by
  induction calls generalizing s t with
  | nil => trivial
  | cons call calls ih =>
    have hsees : ¬ s.Blind call := by
      intro hblind
      obtain ⟨hgiven, hrefused⟩ := h.blind hallowed.1 hblind
      have hleft : (s.step devices call).answers <+: (s.run devices (call :: calls)).answers :=
        StepSystem.prefix_run (FileSystem.answers_prefix devices) calls
      have hright : (t.step devices call).answers <+: (t.run devices (call :: calls)).answers :=
        StepSystem.prefix_run (Service.answers_prefix devices) calls
      rw [hgiven, hanswers, h.answers] at hleft
      rw [hrefused] at hright
      have hsame := (List.prefix_of_prefix_length_le hleft hright (by simp)).eq_of_length
        (by simp)
      simp at hsame
    exact ⟨hsees, ih (h.step hn hallowed.1 hsees) hallowed.2 hanswers⟩

/-- In every run of registrations and file calls that {lit}`FileSystem.Allowed` describes no
search goes astray, and the answers are those of the service exactly when no lock is asked for
while the highest descriptor ever used is the only other one of the device. -/
theorem answers_run_iff (devices : Devices) (hn : n ≤ 2147483648) {calls : List (FileCall n)}
    (hallowed : StepSystem.Meets (FileSystem.step devices) (FileSystem.Allowed devices)
      (FileSystem.init n) calls) :
    ((FileSystem.init n).run devices calls).hung = false ∧
      (((FileSystem.init n).run devices calls).answers =
          ((Service.init n).run devices calls).answers ↔
        Sighted devices (FileSystem.init n) calls) :=
  ⟨hung_run hallowed, (agrees_init devices n).sighted hn hallowed,
    fun hsighted =>
      ((agrees_init devices n).run Service.orderly_init hn hallowed hsighted).1.answers⟩

/-- Two files of a device, of which one asks for the lock. -/
theorem answers_run_iff_blind :
    let devices := boardDevices (fun _ => 0) fun _ => ⟨none, false, false, false, false, false⟩
    let name := jtagUartName fun _ => 0
    let calls : List (FileCall 5) := [.devReg (some jtagUart), .openFile name oWronly (.ok 0),
      .openFile name oWronly (.ok 0), .ioctl 3 tiocexcl (.ok 0)]
    ((FileSystem.init 5).run devices calls).answers = [.ok 0, .ok 3, .ok 4, .ok 0] ∧
      ((FileSystem.init 5).run devices calls).hung = false ∧
      ¬ Sighted devices (FileSystem.init 5) calls := by
  intro devices name calls
  have hrun := @answers_run_iff 5 devices (by decide) calls (by decide +kernel)
  refine ⟨by decide +kernel, hrun.1, fun hsighted => ?_⟩
  exact absurd (hrun.2.mpr hsighted) (by decide +kernel)

/-- In such a run, descriptors that are marked as exclusive are alone on their devices in every
state, exactly when no lock is asked for while the highest descriptor ever used is the only
other one of the device. -/
theorem exclusive_run_iff (devices : Devices) (hn : n ≤ 2147483648) {calls : List (FileCall n)}
    (hallowed : StepSystem.Meets (FileSystem.step devices) (FileSystem.Allowed devices)
      (FileSystem.init n) calls) :
    (∀ before after, calls = before ++ after →
        ((FileSystem.init n).run devices before).Exclusive) ↔
      Sighted devices (FileSystem.init n) calls := by
  constructor
  · intro hexclusive
    refine StepSystem.meets_iff.mpr fun before call after hsplit hblind => ?_
    have hcall := StepSystem.meets_iff.mp hallowed before call after hsplit
    refine not_exclusive_of_blind hcall hblind ?_
    have hnext := hexclusive (before ++ [call]) after (by rw [hsplit, List.append_assoc]; rfl)
    rw [FileSystem.run, StepSystem.run_concat] at hnext
    exact hnext
  · rintro hsighted before after rfl
    obtain ⟨hagrees, horderly⟩ := (agrees_init devices n).run Service.orderly_init hn
      (StepSystem.meets_append.mp hallowed).1 (StepSystem.meets_append.mp hsighted).1
    exact hagrees.exclusive horderly.files.alone

/-- A file that is locked while it is the only one of its device. -/
theorem exclusive_run_iff_locked :
    let devices := boardDevices (fun _ => 0) fun _ => ⟨none, false, false, false, false, false⟩
    let name := jtagUartName fun _ => 0
    let calls : List (FileCall 5) := [.devReg (some jtagUart), .openFile name oWronly (.ok 0),
      .ioctl 3 tiocexcl (.ok 0), .openFile name oWronly (.ok 0)]
    ((FileSystem.init 5).run devices calls).answers = [.ok 0, .ok 3, .ok 0, .error .eAcces] ∧
      ∀ before after, calls = before ++ after →
        ((FileSystem.init 5).run devices before).Exclusive :=
  ⟨by decide +kernel,
    (exclusive_run_iff _ (by decide) (by decide +kernel)).mpr (by decide +kernel)⟩

end Hal
end RadonMCU

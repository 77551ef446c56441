import RadonMCU.Foundations.WordBits
import RadonMCU.Hal.FileService

/-!
# The pool of descriptors and the open files

What the searches for a name and the operations on the pool of descriptors do, in terms of
the open files of the service.

Main results:

- Theorem {lit}`isMountOf_iff`: the test of {lit}`alt_find_file` does not depend on the memory
  behind a name.
- Theorem {lit}`findLoop_spec`: a search finds the device registered last, and ends.
- Theorem {lit}`Serves.openDev`: opening gives the lowest free descriptor, or an error and the
  pool as it was.
- Theorem {lit}`Serves.altFdLock`: a lock is given to the only file of a device, unless the
  highest descriptor ever used is the only other one.
-/

namespace RadonMCU
namespace Hal

open LinkedRing WordBits

/-! ## Names -/

/-- The comparison with the terminating byte tells whether the names are equal. -/
theorem isNamed_iff {dev : Dev} {name : Name} :
    dev.isNamed name = true ↔ dev.name.any (fun own => own.text = name.text) = true := by
  cases hname : dev.name with
  | none => simp [Dev.isNamed, hname]
  | some own => simp [Dev.isNamed, hname, TerminatedText.agree_succ_length_iff]

/-- The last character of a name is read at its length less one. -/
theorem cell_last_eq_slash_iff {own : Name} (hne : own.text ≠ []) :
    own.cell (own.text.length - 1) = slash ↔ own.text.getLast? = some slash := by
  have hlt : own.text.length - 1 < own.text.length :=
    Nat.sub_one_lt (Nat.ne_of_gt (List.length_pos_iff.mpr hne))
  rw [own.cell_of_lt hlt, List.getLast?_eq_getElem?, List.getElem?_eq_getElem hlt,
    Option.some.injEq]

/-- The comparison up to the slash tells whether the file system covers the name. -/
theorem isMountOf_iff {dev : Dev} {name : Name} (hne : ∀ own ∈ dev.name, own.text ≠ []) :
    dev.isMountOf name = true ↔
      dev.name.any (fun own => decide (Covers (mountPoint own.text) name.text)) = true := by
  cases hname : dev.name with
  | none => simp [Dev.isMountOf, hname]
  | some own =>
    have hlast := cell_last_eq_slash_iff (hne own hname)
    have hcovers {len : Nat} (hlen : len ≤ own.text.length)
        (htake : own.text.take len = mountPoint own.text) :
        ((name.cell len = slash ∨ name.cell len = 0) ∧ own.Agree name len) ↔
          Covers (mountPoint own.text) name.text := by
      rw [TerminatedText.agree_and_ends_iff hlen, htake]
      constructor
      · rintro ⟨rest, hrest, hend⟩
        refine ⟨⟨rest, hrest.symm⟩, ?_⟩
        rw [hrest, List.drop_left]
        rintro c hc
        rcases hend with rfl | hend
        · cases hc
        · exact Option.mem_unique hc hend
      · rintro ⟨⟨rest, hrest⟩, hend⟩
        rw [← hrest, List.drop_left] at hend
        refine ⟨rest, hrest.symm, ?_⟩
        cases rest with
        | nil => exact Or.inl rfl
        | cons c rest => exact Or.inr (congrArg some (hend c rfl))
    simp only [Dev.isMountOf, hname, Option.any_some, decide_eq_true_eq]
    by_cases hslash : own.cell (own.text.length - 1) = slash
    · rw [if_pos hslash]
      refine hcovers (Nat.sub_le _ _) ?_
      rw [mountPoint, if_pos (hlast.mp hslash), List.dropLast_eq_take]
    · rw [if_neg hslash]
      refine hcovers (Nat.le_refl _) ?_
      rw [mountPoint, if_neg (mt hlast.mpr hslash), List.take_length]

/-! ## Searches -/

/-- A search finds the first device of the list that passes the test, and ends. -/
theorem findLoop_spec (found : DevId → Bool) {links : Links Cell} {head : Cell}
    (hhead : ∀ d, .dev d ≠ head) {ds : List DevId} {a : Cell} {fuel : Nat}
    (hpath : Path links a (ds.map .dev) head) (hfuel : ds.length ≤ fuel) :
    findLoop found links head fuel (links.next a) = some (ds.find? found) := by
  induction ds generalizing a fuel with
  | nil =>
    rw [hpath.1]
    unfold findLoop
    exact if_pos rfl
  | cons d ds ih =>
    obtain ⟨hnext, -, hrest⟩ := hpath
    cases fuel with
    | zero => exact absurd hfuel (Nat.not_succ_le_zero _)
    | succ fuel =>
      rw [hnext, findLoop, if_neg (hhead d), List.find?_cons]
      cases hfound : found d with
      | true => simp
      | false =>
        simp only [Bool.false_eq_true, if_false]
        exact ih hrest (Nat.le_of_succ_le_succ hfuel)

/-! ## Flags -/

/-- {lit}`ALT_FD_EXCL` is the highest bit. -/
theorem altFdExcl_iff {flags : UInt32} : flags &&& altFdExcl ≠ 0 ↔ bit flags 31 = true :=
  and_mask_ne_zero_iff rfl

/-- {lit}`ALT_FD_DEV` is the bit below it. -/
theorem altFdDev_iff {flags : UInt32} : flags &&& altFdDev ≠ 0 ↔ bit flags 30 = true :=
  and_mask_ne_zero_iff rfl

/-- The only bit of {lit}`ALT_FD_EXCL`. -/
theorem bit_altFdExcl (k : Nat) : bit altFdExcl k = decide (31 = k) := by
  rw [bit_eq_testBit, show altFdExcl.toNat = 2 ^ 31 from rfl, Nat.testBit_two_pow]

/-- The only bit of {lit}`ALT_FD_DEV`. -/
theorem bit_altFdDev (k : Nat) : bit altFdDev k = decide (30 = k) := by
  rw [bit_eq_testBit, show altFdDev.toNat = 2 ^ 30 from rfl, Nat.testBit_two_pow]

/-- The bits of {lit}`ALT_FCNTL_FLAGS_MASK`. -/
theorem bit_altFcntlFlagsMask (k : Nat) :
    bit altFcntlFlagsMask k = (decide (3 = k) || decide (14 = k)) := by
  rw [altFcntlFlagsMask, bit_or, bit_eq_testBit, bit_eq_testBit,
    show (0x0008 : UInt32).toNat = 2 ^ 3 from rfl, show (0x4000 : UInt32).toNat = 2 ^ 14 from rfl,
    Nat.testBit_two_pow, Nat.testBit_two_pow]

/-- The bits of {lit}`ALT_FD_FLAGS_MASK`. -/
theorem bit_altFdFlagsMask (k : Nat) :
    bit altFdFlagsMask k = (decide (31 = k) || decide (30 = k)) := by
  rw [altFdFlagsMask, bit_or, bit_altFdExcl, bit_altFdDev]

/-- The file of a descriptor. -/
def Fd.session (fd : Fd) : Option Session :=
  fd.dev.map fun d =>
    { dev := d
      flags := fd.fdFlags &&& ~~~altFdFlagsMask
      isDevice := bit fd.fdFlags 30
      exclusive := bit fd.fdFlags 31 }

section Session

variable (d : DevId) (w flags : UInt32)

/-- The session of a descriptor that was opened on a device. -/
theorem session_device :
    Fd.session { dev := some d, fdFlags := (flags &&& ~~~altFdFlagsMask) ||| altFdDev } =
      some (Session.opened d false flags) := by
  have hflags : ((flags &&& ~~~altFdFlagsMask) ||| altFdDev) &&& ~~~altFdFlagsMask =
      flags &&& ~~~altFdFlagsMask := by
    apply eq_of_bits
    intro k hk
    simp only [bit_and, bit_or, bit_not _ hk, bit_altFdFlagsMask, bit_altFdDev]
    grind
  simp only [Fd.session, Option.map_some, hflags, bit_or, bit_and,
    bit_not _ (show 30 < 32 by omega), bit_not _ (show 31 < 32 by omega), bit_altFdFlagsMask,
    bit_altFdDev]
  simp [Session.opened]

/-- The session of a descriptor that was opened on a file system. -/
theorem session_file :
    Fd.session { dev := some d, fdFlags := flags &&& ~~~altFdFlagsMask } =
      some (Session.opened d true flags) := by
  have hflags : (flags &&& ~~~altFdFlagsMask) &&& ~~~altFdFlagsMask =
      flags &&& ~~~altFdFlagsMask := by
    rw [UInt32.and_assoc, UInt32.and_self]
  simp only [Fd.session, Option.map_some, hflags, bit_and, bit_not _ (show 30 < 32 by omega),
    bit_not _ (show 31 < 32 by omega), bit_altFdFlagsMask]
  simp [Session.opened]

variable {fd : Fd} {a : Session}

/-- Setting {lit}`ALT_FD_EXCL` makes the session exclusive. -/
theorem session_lock (ha : a ∈ fd.session) :
    Fd.session { fd with fdFlags := fd.fdFlags ||| altFdExcl } =
      some { a with exclusive := true } := by
  obtain ⟨d, hd, rfl⟩ := Option.map_eq_some_iff.mp ha
  have hflags : (fd.fdFlags ||| altFdExcl) &&& ~~~altFdFlagsMask =
      fd.fdFlags &&& ~~~altFdFlagsMask := by
    apply eq_of_bits
    intro k hk
    simp only [bit_and, bit_or, bit_not _ hk, bit_altFdFlagsMask, bit_altFdExcl]
    grind
  simp [Fd.session, hd, hflags, bit_altFdExcl]

/-- Clearing {lit}`ALT_FD_EXCL` makes it a shared one. -/
theorem session_unlock (ha : a ∈ fd.session) :
    Fd.session { fd with fdFlags := fd.fdFlags &&& ~~~altFdExcl } =
      some { a with exclusive := false } := by
  obtain ⟨d, hd, rfl⟩ := Option.map_eq_some_iff.mp ha
  have hflags : (fd.fdFlags &&& ~~~altFdExcl) &&& ~~~altFdFlagsMask =
      fd.fdFlags &&& ~~~altFdFlagsMask := by
    apply eq_of_bits
    intro k hk
    simp only [bit_and, bit_not _ hk, bit_altFdFlagsMask, bit_altFdExcl]
    grind
  simp [Fd.session, hd, hflags, bit_altFdExcl]

/-- {lit}`F_SETFL` sets the flags of the session that {lit}`fcntl` may set, and no others. -/
theorem session_fcntl (ha : a ∈ fd.session) :
    Fd.session { fd with fdFlags :=
        (fd.fdFlags &&& ~~~altFcntlFlagsMask) ||| (flags &&& altFcntlFlagsMask) } =
      some { a with flags :=
        (a.flags &&& ~~~altFcntlFlagsMask) ||| (flags &&& altFcntlFlagsMask) } := by
  obtain ⟨d, hd, rfl⟩ := Option.map_eq_some_iff.mp ha
  have hflags :
      ((fd.fdFlags &&& ~~~altFcntlFlagsMask) ||| (flags &&& altFcntlFlagsMask)) &&&
        ~~~altFdFlagsMask =
      ((fd.fdFlags &&& ~~~altFdFlagsMask) &&& ~~~altFcntlFlagsMask) |||
        (flags &&& altFcntlFlagsMask) := by
    have hapart : altFcntlFlagsMask &&& ~~~altFdFlagsMask = altFcntlFlagsMask := by decide
    apply eq_of_bits
    intro k hk
    have hbit := congrArg (bit · k) hapart
    simp only [bit_and, bit_or, bit_not _ hk] at hbit ⊢
    grind
  simp [Fd.session, hd, hflags, bit_altFcntlFlagsMask]

/-- The access mode is not in the bits of the lock. -/
theorem session_accmode (ha : a ∈ fd.session) : a.flags &&& oAccmode = fd.fdFlags &&& oAccmode := by
  obtain ⟨d, -, rfl⟩ := Option.map_eq_some_iff.mp ha
  rw [UInt32.and_assoc]
  rfl

end Session

/-! ## The pool -/

namespace Files

variable {n : Nat} {devices : Devices} {t : Files n} {σ : Sessions n} {i : Fin n}

/-- The pool holds these files; {lit}`alt_max_fd` is not below any of them, once a descriptor
has been allocated. -/
structure Serves (t : Files n) (σ : Sessions n) : Prop where
  session : ∀ i, (t.altFdList i).session = σ i
  std : ∀ i, i.val < 3 → (σ i).isSome
  le_max : ∀ i, 3 ≤ i.val → (σ i).isSome → (i : Int) ≤ t.altMaxFd
  max_lt : t.altMaxFd < n
  device : ∀ i, ∀ a ∈ σ i, a.isDevice = true → 3 ≤ t.altMaxFd

/-- The descriptor that was written. -/
theorem setFd_self (t : Files n) (i : Fin n) (fd : Fd) : (t.setFd i fd).altFdList i = fd :=
  Function.update_self ..

/-- The other descriptors stay. -/
theorem setFd_of_ne {j : Fin n} (hne : j ≠ i) (fd : Fd) :
    (t.setFd i fd).altFdList j = t.altFdList j :=
  Function.update_of_ne hne ..

/-- The lists of devices and file systems are no part of the descriptors. -/
theorem Serves.setLinks (h : t.Serves σ) (links : Links Cell) : Serves { t with links } σ where
  session := h.session
  std := h.std
  le_max := h.le_max
  max_lt := h.max_lt
  device := h.device

/-- The search for a free descriptor finds the lowest one without a session. -/
theorem Serves.lowest (h : t.Serves σ) :
    ((List.finRange n).find? fun i => (t.altFdList i).dev.isNone) = σ.lowest := by
  rw [Sessions.lowest]
  congr 1
  funext i
  rw [← h.session i, Fd.session, Option.isNone_map]

/-- A free descriptor is not one of the first three. -/
theorem Serves.three_le (h : t.Serves σ) (hfree : σ i = none) : 3 ≤ i.val := by
  by_contra hlt
  have hsome := h.std i (by omega)
  rw [hfree] at hsome
  cases hsome

/-- A descriptor is written without making one of the first three free. -/
theorem Serves.setFd (h : t.Serves σ) {fd : Fd} {session : Option Session}
    (hsession : fd.session = session) (hstd : i.val < 3 → session.isSome)
    (hmax : 3 ≤ i.val → session.isSome → (i : Int) ≤ t.altMaxFd)
    (hdevice : ∀ a ∈ session, a.isDevice = true → 3 ≤ t.altMaxFd) :
    (t.setFd i fd).Serves (σ.put i session) where
  session j := by
    by_cases hj : j = i
    · subst hj
      rw [setFd_self, Sessions.put_self, hsession]
    · rw [setFd_of_ne hj, Sessions.put_of_ne hj]
      exact h.session j
  std j hlt := by
    by_cases hj : j = i
    · subst hj
      rw [Sessions.put_self]
      exact hstd hlt
    · rw [Sessions.put_of_ne hj]
      exact h.std j hlt
  le_max j hle hsome := by
    by_cases hj : j = i
    · subst hj
      rw [Sessions.put_self] at hsome
      exact hmax hle hsome
    · rw [Sessions.put_of_ne hj] at hsome
      exact h.le_max j hle hsome
  max_lt := h.max_lt
  device j a ha := by
    by_cases hj : j = i
    · subst hj
      rw [Sessions.put_self] at ha
      exact hdevice a ha
    · rw [Sessions.put_of_ne hj] at ha
      exact h.device j a ha

/-- An open file changes. -/
theorem Serves.modify (h : t.Serves σ) {fd : Fd} {a a' : Session} (ha : a ∈ σ i)
    (hsession : fd.session = some a') (hdevice : a'.isDevice = a.isDevice) :
    (t.setFd i fd).Serves (σ.put i (some a')) := by
  refine h.setFd hsession (fun _ => rfl) (fun hle _ => h.le_max i hle ?_) ?_
  · rw [Option.mem_def.mp ha]
    rfl
  · intro b hb hb'
    obtain rfl := Option.some.inj hb
    exact h.device i a ha (hdevice ▸ hb')

/-- A release ends the session, unless the file is a standard one. -/
theorem Serves.altReleaseFd (h : t.Serves σ) (i : Fin n) :
    (t.altReleaseFd i).Serves (σ.release i) := by
  rw [Files.altReleaseFd, Sessions.release]
  by_cases hi : i.val > 2
  · rw [if_pos hi, if_pos hi]
    exact h.setFd rfl (fun hlt => by omega) (fun _ hsome => by cases hsome) (by simp)
  · rw [if_neg hi, if_neg hi]
    exact h

/-! ## Opening -/

/-- The pool while the free descriptor {lit}`i` is being opened. -/
def opening (t : Files n) (i : Fin n) (fd : Fd) : Files n :=
  { t.setFd i fd with altMaxFd := if (i : Int) > t.altMaxFd then i else t.altMaxFd }

/-- The flags that are written into a new descriptor. -/
theorem opening_setFlags (t : Files n) (i : Fin n) (fd : Fd) (flags : UInt32) :
    (t.opening i fd).setFlags i flags = t.opening i { fd with fdFlags := flags } := by
  simp [opening, setFlags, Files.setFd]

/-- The highest descriptor ever used is not below a new one. -/
theorem opening_max (t : Files n) (i : Fin n) (fd : Fd) :
    t.altMaxFd ≤ (t.opening i fd).altMaxFd ∧ (i : Int) ≤ (t.opening i fd).altMaxFd := by
  rw [opening]
  dsimp only
  split <;> omega

/-- The highest descriptor ever used stays within the list. -/
theorem Serves.opening_lt (h : t.Serves σ) (i : Fin n) (fd : Fd) :
    (t.opening i fd).altMaxFd < n := by
  rw [opening]
  dsimp only
  have hi := i.isLt
  have hlt := h.max_lt
  split <;> omega

/-- A higher bound on the used descriptors does no harm. -/
theorem Serves.raise (h : t.Serves σ) (i : Fin n) (fd : Fd) :
    Serves { t with altMaxFd := (t.opening i fd).altMaxFd } σ where
  session := h.session
  std := h.std
  le_max j hle hsome := (h.le_max j hle hsome).trans (opening_max t i fd).1
  max_lt := h.opening_lt i fd
  device j a ha hdevice := (h.device j a ha hdevice).trans (opening_max t i fd).1

/-- A new descriptor with its session. -/
theorem Serves.opening (h : t.Serves σ) (hfree : σ i = none) {fd : Fd} {a : Session}
    (hsession : fd.session = some a) : (t.opening i fd).Serves (σ.put i (some a)) := by
  have hthree := h.three_le hfree
  have hmax := (opening_max t i fd).2
  exact (h.raise i fd).setFd hsession (fun _ => rfl) (fun _ _ => hmax)
    fun _ _ _ => by dsimp only; omega

/-- A file that could not be opened leaves the other files as they were. -/
theorem Serves.opening_release (h : t.Serves σ) (hfree : σ i = none) (fd : Fd) :
    ((t.opening i fd).altReleaseFd i).Serves σ := by
  have hthree := h.three_le hfree
  have hput : σ.put i none = σ := by
    rw [Sessions.put, ← hfree, Function.update_eq_self]
  have hrelease : (t.opening i fd).altReleaseFd i =
      ({ t with altMaxFd := (t.opening i fd).altMaxFd } : Files n).setFd i
        { dev := none, fdFlags := 0 } := by
    rw [Files.altReleaseFd, if_pos (by omega)]
    simp [Files.opening, Files.setFd]
  rw [hrelease, ← hput]
  exact (h.raise i fd).setFd rfl (fun hlt => by omega) (fun _ hsome => by cases hsome) (by simp)

/-- The search of {lit}`alt_file_locked` sees every exclusive file of the device. -/
theorem Serves.altFileLocked (h : t.Serves σ) (hn : n ≤ 2147483648) (hfree : σ i = none)
    (d : DevId) (flags : UInt32) :
    (t.opening i { dev := some d, fdFlags := flags }).altFileLocked i =
      ( if σ.Locked d then .error .eAcces else .ok 0,
        t.opening i { dev := some d, fdFlags := flags ||| altFdDev } ) := by
  have hself : ((t.opening i { dev := some d, fdFlags := flags }).altFdList i).fdFlags =
      flags := congrArg Fd.fdFlags (setFd_self t i _)
  rw [Files.altFileLocked, hself, opening_setFlags]
  dsimp only
  generalize hu : t.opening i { dev := some d, fdFlags := flags ||| altFdDev } = u
  have hown : (u.altFdList i).dev = some d := by
    rw [← hu]
    exact congrArg Fd.dev (setFd_self t i _)
  have hother {j : Fin n} (hj : j ≠ i) : u.altFdList j = t.altFdList j := by
    rw [← hu]
    exact setFd_of_ne hj _
  have hmaxs : t.altMaxFd ≤ u.altMaxFd ∧ (i : Int) ≤ u.altMaxFd := hu ▸ opening_max t i _
  have hlt : u.altMaxFd < n := hu ▸ h.opening_lt i _
  have hthree := h.three_le hfree
  have hunsigned : u.altMaxFd % 4294967296 = u.altMaxFd :=
    Int.emod_eq_of_lt (by omega) (by omega)
  have hlocked : (∃ j : Fin n, (j : Int) ≤ u.altMaxFd % 4294967296 ∧
      (u.altFdList j).dev = (u.altFdList i).dev ∧
      (u.altFdList j).fdFlags &&& altFdExcl ≠ 0 ∧ j ≠ i) ↔ σ.Locked d := by
    rw [hunsigned, hown]
    constructor
    · rintro ⟨j, -, hdev, hexclusive, hj⟩
      rw [hother hj] at hdev hexclusive
      have hsession := h.session j
      rw [Fd.session, hdev] at hsession
      exact ⟨j, _, hsession.symm, rfl, altFdExcl_iff.mp hexclusive⟩
    · rintro ⟨j, a, ha, hdev, hexclusive⟩
      have hj : j ≠ i := by
        rintro rfl
        rw [hfree] at ha
        cases ha
      have hsession := h.session j
      rw [Option.mem_def.mp ha] at hsession
      obtain ⟨e, he, rfl⟩ := Option.map_eq_some_iff.mp hsession
      refine ⟨j, ?_, ?_, ?_, hj⟩
      · by_cases hlow : j.val < 3
        · omega
        · exact (h.le_max j (by omega) (by rw [Option.mem_def.mp ha]; rfl)).trans hmaxs.1
      · rw [hother hj, he, ← hdev]
      · rw [hother hj]
        exact altFdExcl_iff.mpr hexclusive
  by_cases hd : σ.Locked d
  · rw [if_pos (hlocked.mpr hd), if_pos hd]
  · rw [if_neg (mt hlocked.mp hd), if_neg hd]

/-- A release leaves the lists of devices and file systems. -/
theorem altReleaseFd_links (t : Files n) (i : Fin n) : (t.altReleaseFd i).links = t.links := by
  rw [Files.altReleaseFd]
  split <;> rfl

/-- {lit}`alt_get_fd` takes the lowest free descriptor. -/
theorem Serves.altGetFd (h : t.Serves σ) (d : DevId) :
    t.altGetFd d =
      match σ.lowest with
      | some i => (.ok i, t.opening i { t.altFdList i with dev := some d })
      | none => (.error .eMfile, t) := by
  rw [Files.altGetFd, h.lowest]
  cases σ.lowest <;> rfl

/-- Opening a device or file system gives the answer and the files of the service. -/
theorem Serves.openDev (h : t.Serves σ) (hn : n ≤ 2147483648) (devices : Devices) (d : DevId)
    (isafs : Bool) (flags : UInt32) (opened : Answer) :
    ∃ t', t.openDev devices (some d) isafs flags opened =
        ((σ.openOn devices d isafs flags opened).1, t') ∧
      t'.Serves (σ.openOn devices d isafs flags opened).2 ∧ t'.links = t.links := by
  rw [Files.openDev, h.altGetFd, Sessions.openOn]
  cases hlowest : σ.lowest with
  | none => exact ⟨t, rfl, h, rfl⟩
  | some i =>
    have hfree : σ i = none := 
      Option.isNone_iff_eq_none.mp (List.find?_some (p := fun i => (σ i).isNone) hlowest)
    dsimp only
    rw [opening_setFlags]
    cases isafs with
    | true =>
      simp only [if_true, Bool.true_eq_false, false_and, if_false]
      cases Files.callDev (devices d).hasOpen opened (.ok 0) with
      | ok _ => exact ⟨_, rfl, h.opening hfree (session_file d flags), rfl⟩
      | error e => exact ⟨_, rfl, h.opening_release hfree _, altReleaseFd_links _ i⟩
    | false =>
      simp only [Bool.false_eq_true, if_false, true_and]
      rw [h.altFileLocked hn hfree]
      by_cases hlocked : σ.Locked d
      · simp only [if_pos hlocked]
        exact ⟨_, rfl, h.opening_release hfree _, altReleaseFd_links _ i⟩
      · simp only [if_neg hlocked]
        cases Files.callDev (devices d).hasOpen opened (.ok 0) with
        | ok _ => exact ⟨_, rfl, h.opening hfree (session_device d flags), rfl⟩
        | error e => exact ⟨_, rfl, h.opening_release hfree _, altReleaseFd_links _ i⟩

/-- The file of a descriptor moves to one of the first three. -/
theorem Serves.redirect (h : t.Serves σ) {std old : Fin n} {a : Session} (hstd : std.val < 3)
    (ha : a ∈ σ old) :
    ((t.setFd std (t.altFdList old)).altReleaseFd old).Serves (σ.redirect std old) := by
  rw [Sessions.redirect]
  refine (h.setFd (h.session old) (fun _ => ?_) (fun hle => by omega) ?_).altReleaseFd old
  · rw [Option.mem_def.mp ha]
    rfl
  · exact h.device old

/-! ## Locking -/

/-- Another session has the device open when another descriptor refers to it. -/
theorem Serves.shared_iff (h : t.Serves σ) {a : Session} (ha : a ∈ σ i) :
    σ.Shared i a.dev ↔ ∃ j, j ≠ i ∧ (t.altFdList j).dev = (t.altFdList i).dev := by
  have hdev {j : Fin n} {b : Session} (hb : b ∈ σ j) : (t.altFdList j).dev = some b.dev := by
    have hsession := h.session j
    rw [Option.mem_def.mp hb] at hsession
    obtain ⟨d, hd, rfl⟩ := Option.map_eq_some_iff.mp hsession
    exact hd
  rw [hdev ha]
  constructor
  · rintro ⟨j, hj, b, hb, heq⟩
    exact ⟨j, hj, by rw [hdev hb, heq]⟩
  · rintro ⟨j, hj, heq⟩
    have hsession := h.session j
    rw [Fd.session, heq] at hsession
    exact ⟨j, hj, _, hsession.symm, rfl⟩

/-- The loop of {lit}`alt_fd_lock` sees another descriptor of the device if there is one,
unless it is the highest one ever used. -/
theorem Serves.seen_iff (h : t.Serves σ) {a : Session} (ha : a ∈ σ i)
    (hdevice : a.isDevice = true) (honly : ¬ t.OnlyTop i) :
    (∃ j : Fin n, (j : Int) < t.altMaxFd ∧ j ≠ i ∧
      (t.altFdList j).dev = (t.altFdList i).dev) ↔ σ.Shared i a.dev := by
  have hmax := h.device i a ha hdevice
  rw [h.shared_iff ha]
  constructor
  · rintro ⟨j, -, hj, hdev⟩
    exact ⟨j, hj, hdev⟩
  · rintro ⟨j, hj, hdev⟩
    by_contra hnot
    have htop {k : Fin n} (hk : k ≠ i) (hkdev : (t.altFdList k).dev = (t.altFdList i).dev) :
        (k : Int) = t.altMaxFd := by
      have hge : t.altMaxFd ≤ k := Int.not_lt.mp fun hlt => hnot ⟨k, hlt, hk, hkdev⟩
      have hsome : (σ k).isSome := by
        have howner : (σ i).isSome := by
          rw [Option.mem_def.mp ha]
          rfl
        rw [← h.session i, Fd.session, Option.isSome_map, ← hkdev] at howner
        rw [← h.session k, Fd.session, Option.isSome_map]
        exact howner
      exact Int.le_antisymm (h.le_max k (by omega) hsome) hge
    refine honly ⟨j, htop hj hdev, hj, fun k hk => ⟨fun hkdev => ?_, fun heq => heq ▸ hdev⟩⟩
    have hkj := (htop hk hkdev).trans (htop hj hdev).symm
    exact Fin.ext (by omega)

/-- A lock that is not blind has the answer and the effect of the service. -/
theorem Serves.altFdLock (h : t.Serves σ) {a : Session} (ha : a ∈ σ i)
    (hdevice : a.isDevice = true) (honly : ¬ t.OnlyTop i) :
    (t.altFdLock i).1 = (σ.lock i a).1 ∧ (t.altFdLock i).2.Serves (σ.lock i a).2 := by
  have hseen := h.seen_iff ha hdevice honly
  rw [Files.altFdLock, Sessions.lock]
  by_cases hshared : σ.Shared i a.dev
  · rw [if_pos hshared, if_pos (hseen.mpr hshared)]
    exact ⟨rfl, h⟩
  · rw [if_neg hshared, if_neg (mt hseen.mp hshared)]
    refine ⟨rfl, h.modify ha (session_lock ?_) rfl⟩
    rw [h.session i]
    exact ha

/-- A lock that is given although the highest descriptor ever used is one of the device. -/
theorem Serves.altFdLock_of_onlyTop (h : t.Serves σ) {a : Session} (ha : a ∈ σ i)
    (honly : t.OnlyTop i) :
    (t.altFdLock i).1 = .ok 0 ∧ (σ.lock i a).1 = .error .eAcces := by
  obtain ⟨top, htop, hne, hothers⟩ := honly
  have hshared : σ.Shared i a.dev := (h.shared_iff ha).mpr ⟨top, hne, (hothers top hne).mpr rfl⟩
  rw [Files.altFdLock, Sessions.lock, if_pos hshared, if_neg]
  · exact ⟨rfl, rfl⟩
  · rintro ⟨j, hlt, hj, hdev⟩
    rw [(hothers j hj).mp hdev, htop] at hlt
    exact Int.lt_irrefl _ hlt

/-! ## The lists of devices and file systems

None of the calls with descriptors changes them. -/

section Links

variable (devices : Devices) (t : Files n)

/-- A lock leaves the lists. -/
theorem altFdLock_links (i : Fin n) : (t.altFdLock i).2.links = t.links := by
  rw [Files.altFdLock]
  split <;> rfl

/-- The check for a lock leaves the lists. -/
theorem altFileLocked_links (i : Fin n) : (t.altFileLocked i).2.links = t.links := by
  rw [Files.altFileLocked]
  split <;> rfl

/-- The search for a free descriptor leaves the lists. -/
theorem altGetFd_links (d : DevId) : (t.altGetFd d).2.links = t.links := by
  rw [Files.altGetFd]
  split <;> rfl

/-- An open leaves the lists. -/
theorem openDev_links (dev : Option DevId) (isafs : Bool) (flags : UInt32) (opened : Answer) :
    (t.openDev devices dev isafs flags opened).2.links = t.links := by
  cases dev with
  | none => rfl
  | some d =>
    have hget := altGetFd_links t d
    rw [Files.openDev]
    dsimp only
    cases hres : t.altGetFd d with
    | mk out t' =>
      rw [hres] at hget
      cases out with
      | error e => exact hget
      | ok index =>
        dsimp only
        set locked := if isafs = true then
          (Except.ok 0, t'.setFlags index (flags &&& ~~~altFdFlagsMask))
          else (t'.setFlags index (flags &&& ~~~altFdFlagsMask)).altFileLocked index with hlocked
        have hlinks : locked.2.links = t.links := by
          rw [hlocked]
          split
          · exact hget
          · rw [altFileLocked_links]
            exact hget
        split
        · exact hlinks
        · rw [altReleaseFd_links]
          exact hlinks

/-- A close leaves the lists. -/
theorem altClose_links (fildes : Int) (closed : Answer) :
    (t.altClose devices fildes closed).2.links = t.links := by
  rw [Files.altClose]
  split
  · exact altReleaseFd_links t _
  · rfl

/-- The call {lit}`ioctl` leaves the lists. -/
theorem altIoctl_links (fildes : Int) (req : UInt32) (answered : Answer) :
    (t.altIoctl devices fildes req answered).2.links = t.links := by
  rw [Files.altIoctl]
  split
  · split
    · exact altFdLock_links t _
    · split <;> rfl
  · rfl

/-- The call {lit}`fcntl` leaves the lists. -/
theorem altFcntl_links (file : Int) (cmd : Files.FcntlCmd) :
    (t.altFcntl file cmd).2.links = t.links := by
  rw [Files.altFcntl]
  split
  · cases cmd <;> rfl
  · rfl

end Links

end Files

end Hal
end RadonMCU

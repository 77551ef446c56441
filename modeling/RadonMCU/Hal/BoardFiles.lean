import RadonMCU.Hal.FilesRun

/-!
# The files of the board

The board has four descriptors, and the first three of them are files of the JTAG UART once
{lit}`alt_main` has redirected them.  No lock is blind then: another descriptor of a device is
never the highest one alone.

Main results:

- Theorem {lit}`not_onlyTop`: with four descriptors, of which three share a device, the search
  of {lit}`alt_fd_lock` misses none.
- Theorem {lit}`board_run`: the files of the board give their service in every run.
-/

namespace RadonMCU
namespace Hal

/-- The first three descriptors are files of the device. -/
def StdOn {n : Nat} (d : DevId) (σ : Sessions n) : Prop :=
  ∀ i, i.val < 3 → ∃ a ∈ σ i, a.dev = d

section Step

variable {n : Nat} {devices : Devices} {t : Service n} {σ : Sessions n} {d : DevId}

theorem StdOn.put (h : StdOn d σ) {i : Fin n} {session : Option Session}
    (hsession : i.val < 3 → ∃ a ∈ session, a.dev = d) : StdOn d (σ.put i session) := by
  intro j hj
  by_cases hji : j = i
  · subst hji
    rw [Sessions.put_self]
    exact hsession hj
  · rw [Sessions.put_of_ne hji]
    exact h j hj

theorem StdOn.modify (h : StdOn d σ) {i : Fin n} {a a' : Session} (ha : a ∈ σ i)
    (hdev : a'.dev = a.dev) : StdOn d (σ.put i (some a')) := by
  refine h.put fun hi => ⟨a', rfl, ?_⟩
  obtain ⟨b, hb, hbd⟩ := h i hi
  rw [hdev, Option.mem_unique ha hb, hbd]

theorem StdOn.openOn (h : StdOn d σ) (devices : Devices) (d' : DevId) (isafs : Bool)
    (flags : UInt32) (opened : Answer) :
    StdOn d (σ.openOn devices d' isafs flags opened).2 := by
  rcases Sessions.openOn_cases devices σ d' isafs flags opened with ⟨e, heq⟩ | ⟨i, hi, -, heq⟩
  · rw [heq]
    exact h
  · rw [heq]
    refine h.put fun hlow => ?_
    have hfree := List.find?_some (p := fun i => (σ i).isNone) hi
    obtain ⟨a, ha, -⟩ := h i hlow
    rw [Option.mem_def.mp ha] at hfree
    cases hfree

theorem StdOn.onFile (h : StdOn d t.sessions) {fildes : Int}
    {act : Fin n → Session → Answer × Sessions n}
    (hact : ∀ i, ∀ a ∈ t.sessions i, StdOn d (act i a).2) :
    StdOn d (t.onFile fildes act).sessions := by
  rw [Service.onFile]
  split
  · rename_i i _
    split
    · rename_i a ha
      exact hact i a ha
    · exact h
  · exact h

/-- The call does not redirect one of the first three descriptors. -/
def FileCall.Stays : FileCall n → Prop
  | .openFd _ _ _ _ => False
  | _ => True

instance : DecidablePred (FileCall.Stays (n := n))
  | .openFd _ _ _ _ => isFalse id
  | .devReg _ | .fsReg _ | .openFile _ _ _ | .close _ _ | .ioctl _ _ _ | .read _ _
  | .write _ _ | .fcntl _ _ => isTrue trivial

/-- The first three descriptors stay files of the device. -/
theorem StdOn.step (h : StdOn d t.sessions) {call : FileCall n} (hstays : call.Stays) :
    StdOn d (t.step devices call).sessions := by
  cases call with
  | devReg dev =>
    cases dev with
    | none => exact h
    | some e =>
      rw [Service.step]
      split <;> exact h
  | fsReg e =>
    rw [Service.step]
    split <;> exact h
  | openFile file flags opened =>
    rw [Service.step, Service.answer, Service.openFile]
    split
    · exact h.openOn _ _ _ _ _
    · exact h
  | close fildes closed =>
    refine h.onFile fun i a ha => ?_
    dsimp only [Sessions.release]
    split
    · exact h.put fun hlow => by omega
    · exact h
  | ioctl fildes req answered =>
    refine h.onFile fun i a ha => ?_
    split
    · rw [Sessions.lock]
      split
      · exact h
      · exact h.modify ha rfl
    · split
      · exact h.modify ha rfl
      · exact h
  | read file done => exact h.onFile fun _ _ _ => h
  | write file done => exact h.onFile fun _ _ _ => h
  | fcntl file cmd =>
    refine h.onFile fun i a ha => ?_
    cases cmd with
    | getFl => exact h
    | setFl flags => exact h.modify ha rfl
    | other => exact h
  | openFd std name flags opened => exact hstays.elim

end Step

/-! ## The board -/

section Board

variable {devices : Devices} {s : FileSystem 4} {t : Service 4} {d : DevId}

/-- With four descriptors, of which the first three share a device, another descriptor of a
device is never the highest one alone. -/
theorem not_onlyTop {files : Files 4} {fd : Fin 4}
    (hstd : ∀ i : Fin 4, i.val < 3 → (files.altFdList i).dev = some d) : ¬ files.OnlyTop fd := by
  rintro ⟨top, -, hne, hothers⟩
  have hsame := (hothers top hne).mpr rfl
  have hshare {i : Fin 4} (hi : i.val < 3) (hfd : i ≠ fd) : i = top := by
    refine (hothers i hfd).mp ?_
    by_cases htop : top.val < 3
    · rw [hstd i hi, ← hsame, hstd top htop]
    · by_cases hlow : fd.val < 3
      · rw [hstd i hi, hstd fd hlow]
      · exact absurd (Fin.ext (by omega)) hne
  have h0 := @hshare 0 (by decide)
  have h1 := @hshare 1 (by decide)
  have h2 := @hshare 2 (by decide)
  revert h0 h1 h2 hne
  clear hshare hsame hothers
  revert fd top
  decide

theorem Agrees.std (h : Agrees devices s t) (hstd : StdOn d t.sessions) (i : Fin 4)
    (hi : i.val < 3) : (s.files.altFdList i).dev = some d := by
  obtain ⟨a, ha, had⟩ := hstd i hi
  rw [h.dev_eq ha, had]

theorem Agrees.sighted_of_std (h : Agrees devices s t) (hstd : StdOn d t.sessions)
    {calls : List (FileCall 4)}
    (hallowed : StepSystem.Meets (FileSystem.step devices) (FileSystem.Allowed devices) s calls)
    (hstays : ∀ call ∈ calls, call.Stays) :
    Sighted devices s calls ∧ StdOn d (t.run devices calls).sessions := by
  induction calls generalizing s t with
  | nil => exact ⟨trivial, hstd⟩
  | cons call calls ih =>
    obtain ⟨hcall, hcalls⟩ := List.forall_mem_cons.mp hstays
    have hsees : ¬ s.Blind call := by
      cases call with
      | ioctl fildes req answered =>
        rintro ⟨-, fd, -, -, honly⟩
        exact not_onlyTop (h.std hstd) honly
      | _ => exact id
    obtain ⟨hsighted, hon⟩ := ih (h.step (by decide) hallowed.1 hsees) (hstd.step hcall)
      hallowed.2 hcalls
    exact ⟨⟨hsees, hsighted⟩, hon⟩

end Board

/-- On the board, in every run that starts with {lit}`alt_main` and does not redirect the
standard files again, all answers are those of the service, descriptors that are marked as
exclusive are alone on their devices, and the standard files stay files of the JTAG UART. -/
theorem board_run (beyond : Nat → UInt8) (others : Devices) (opened : Fin 3 → Answer)
    {calls : List (FileCall 4)}
    (hallowed : StepSystem.Meets (FileSystem.step (boardDevices beyond others))
      (FileSystem.Allowed (boardDevices beyond others)) (FileSystem.init 4)
      (boot beyond opened ++ calls))
    (hstays : ∀ call ∈ calls, call.Stays) :
    let s := (FileSystem.init 4).run (boardDevices beyond others) (boot beyond opened ++ calls)
    let t := (Service.init 4).run (boardDevices beyond others) (boot beyond opened ++ calls)
    s.answers = t.answers ∧ s.Exclusive ∧
      ∀ i : Fin 4, i.val < 3 → (s.files.altFdList i).dev = some jtagUart := by
  obtain ⟨hboot, hcalls⟩ := StepSystem.meets_append.mp hallowed
  have hsees : Sighted (boardDevices beyond others) (FileSystem.init 4) (boot beyond opened) :=
    ⟨id, id, id, id, trivial⟩
  obtain ⟨hagrees, horderly⟩ :=
    (agrees_init _ 4).run Service.orderly_init (by decide) hboot hsees
  have hstd : StdOn jtagUart
      ((Service.init 4).run (boardDevices beyond others) (boot beyond opened)).sessions := by
    intro i hi
    match i, hi with
    | 0, _ => exact ⟨_, rfl, rfl⟩
    | 1, _ => exact ⟨_, rfl, rfl⟩
    | 2, _ => exact ⟨_, rfl, rfl⟩
  obtain ⟨hsighted, hon⟩ := hagrees.sighted_of_std hstd hcalls hstays
  obtain ⟨hagrees', horderly'⟩ := hagrees.run horderly (by decide) hcalls hsighted
  dsimp only
  rw [FileSystem.run, Service.run, StepSystem.run_append, StepSystem.run_append]
  exact ⟨hagrees'.answers, hagrees'.exclusive horderly'.files.alone, hagrees'.std hon⟩

/-- The program asks for the JTAG UART to itself, and then writes. -/
theorem board_run_locks :
    let devices := boardDevices (fun _ => 0) fun _ => ⟨none, false, false, false, false, false⟩
    let calls : List (FileCall 4) := boot (fun _ => 0) (fun _ => .ok 0) ++
      [ .openFile (jtagUartName fun _ => 0) oWronly (.ok 0), .ioctl 3 tiocexcl (.ok 0),
        .write 1 (.ok 5), .close 3 (.ok 0), .openFile (jtagUartName fun _ => 7) 2 (.ok 0) ]
    ((FileSystem.init 4).run devices calls).answers =
        [.ok 0, .ok 0, .ok 0, .ok 0, .ok 3, .error .eAcces, .ok 5, .ok 0, .ok 3] ∧
      ((FileSystem.init 4).run devices calls).Exclusive :=
  ⟨by decide +kernel,
    (board_run _ _ _ (by decide +kernel) (by decide)).2.1⟩

end Hal
end RadonMCU

import PranaOS.AK.LexicalPath
import PranaOS.Kernel.KResult
import PranaOS.ToMathlib.Run

/-!
# `Kernel/Syscalls/setuid.cpp` and `Kernel/Syscalls/pledge.cpp`

Runs of the calls by which a process changes its ids and gives up promises.
-/

namespace Kernel.Privileges

open AK Transition Function

/-- The real, effective and saved ids. -/
structure Ids where
  real : UInt32
  effective : UInt32
  saved : UInt32

/-- `ok`: the id is one of the three. -/
def Ids.ok (self : Ids) (id : UInt32) : Bool :=
  id = self.real ∨ id = self.effective ∨ id = self.saved

/-- `ENUMERATE_PLEDGE_PROMISES`. -/
def pledgePromises : List String :=
  ["stdio", "rpath", "wpath", "cpath", "dpath", "inet", "id", "proc", "ptrace", "exec", "unix",
    "recvfd", "sendfd", "fattr", "tty", "chown", "chroot", "thread", "video", "accept", "settime",
    "sigaction", "setkeymap", "prot_exec", "map_fixed", "getkeymap"]

/-- The bit of a promise. -/
def promiseBit (promise : String) : BitVec 32 := 1#32 <<< pledgePromises.idxOf promise

/-- `parse_pledge`: the promises of the text, if all are known. -/
def parsePledge (text : Str) : Option (BitVec 32) :=
  (splitView text ' ' false).foldlM (fun mask part =>
    let part := String.ofList part
    if part ∈ pledgePromises then some (mask ||| promiseBit part) else none) 0#32

/-- `m_has_promises` and `m_promises`, or `m_has_execpromises` and `m_execpromises`. -/
structure Promises where
  has : Bool
  mask : BitVec 32

/-- The errors of `sys$pledge` on copied texts. -/
inductive PledgeError where
  | E2BIG
  | EINVAL
  | EPERM

/-- What `sys$pledge` does with each of its texts. -/
def Promises.restrict (self : Promises) : Option Str → Except PledgeError Promises
  | none => .ok self
  | some text =>
    match parsePledge text with
    | none => .error .EINVAL
    | some new =>
      if self.mask ≠ 0 ∧ (new = 0 ∨ new &&& ~~~self.mask ≠ 0) then .error .EPERM
      else .ok ⟨true, new⟩

/-- User ids and group ids. -/
inductive Kind where
  | uid
  | gid
deriving DecidableEq

/-- The protected data of a process. -/
structure Process where
  ids : Kind → Ids
  dumpable : Bool
  promises : Promises
  execpromises : Promises

variable (self : Process)

/-- `has_promised`. -/
def Process.hasPromised (promise : String) : Bool := self.promises.mask &&& promiseBit promise ≠ 0

/-- `sys$pledge` on the copied texts. The promises are in force even if the second is refused. -/
def Process.pledge (text execText : Option Str) : Process × Except PledgeError Unit :=
  if 1024 < (text.getD []).length ∨ 1024 < (execText.getD []).length then (self, .error .E2BIG)
  else
    match self.promises.restrict text with
    | .error e => (self, .error e)
    | .ok promises =>
      match self.execpromises.restrict execText with
      | .error e => ({ self with promises }, .error e)
      | .ok execpromises => ({ self with promises, execpromises }, .ok ())

variable (ids : Ids) (isSuperuser : Bool) (real effective saved new : UInt32)

/-- `sys$seteuid` and `sys$setegid`. -/
def seteid : KResultOr Ids :=
  if new ≠ ids.real ∧ new ≠ ids.saved ∧ ¬isSuperuser then .error .EPERM
  else .ok { ids with effective := new }

/-- `sys$setuid` and `sys$setgid`. -/
def setid : KResultOr Ids :=
  if new ≠ ids.real ∧ new ≠ ids.effective ∧ ¬isSuperuser then .error .EPERM
  else .ok ⟨new, new, new⟩

/-- An argument of `-1` keeps the id. -/
def orKeep (old : UInt32) : UInt32 := if new = -1 then old else new

/-- `sys$setresuid` and `sys$setresgid`. -/
def setresid : KResultOr Ids :=
  let new : Ids := ⟨orKeep real ids.real, orKeep effective ids.effective, orKeep saved ids.saved⟩
  if (¬ids.ok new.real ∨ ¬ids.ok new.effective ∨ ¬ids.ok new.saved) ∧ ¬isSuperuser then
    .error .EPERM
  else .ok new

/-- `sys$setreuid`, which refuses ids below `-1` and makes no exception for the superuser. -/
def setreuid : KResultOr Ids :=
  let new : Ids := ⟨orKeep real ids.real, orKeep effective ids.effective, ids.saved⟩
  if ¬ids.ok new.real ∨ ¬ids.ok new.effective then .error .EPERM
  else if new.real < -1 ∨ new.effective < -1 then .error .EINVAL
  else .ok new

/-- A call that sets ids: the process crashes without the promise `id`, and is no longer dumpable
after its effective id changed. -/
def Process.setIds (kind : Kind) (result : Ids → Bool → KResultOr Ids) : Option Process :=
  if self.promises.has ∧ ¬self.hasPromised "id" then none
  else
    match result (self.ids kind) ((self.ids .uid).effective = 0) with
    | .error _ => some self
    | .ok new => some { self with
        ids := update self.ids kind new
        dumpable := self.dumpable ∧ (self.ids kind).effective = new.effective }

/-- `sys$seteuid`. -/
def Process.seteuid := self.setIds .uid (seteid · · new)

/-- `sys$setegid`. -/
def Process.setegid := self.setIds .gid (seteid · · new)

/-- `sys$setuid`. -/
def Process.setuid := self.setIds .uid (setid · · new)

/-- `sys$setgid`. -/
def Process.setgid := self.setIds .gid (setid · · new)

/-- `sys$setreuid`. -/
def Process.setreuid := self.setIds .uid fun ids _ => Privileges.setreuid ids real effective

/-- `sys$setresuid`. -/
def Process.setresuid := self.setIds .uid (setresid · · real effective saved)

/-- `sys$setresgid`. -/
def Process.setresgid := self.setIds .gid (setresid · · real effective saved)

/-- The calls. -/
inductive Call where
  | seteuid (new : UInt32)
  | setegid (new : UInt32)
  | setuid (new : UInt32)
  | setgid (new : UInt32)
  | setreuid (real effective : UInt32)
  | setresuid (real effective saved : UInt32)
  | setresgid (real effective saved : UInt32)
  | pledge (text execText : Option Str)

/-- One call. -/
def step : Call → Option Process
  | .seteuid new => self.seteuid new
  | .setegid new => self.setegid new
  | .setuid new => self.setuid new
  | .setgid new => self.setgid new
  | .setreuid real effective => self.setreuid real effective
  | .setresuid real effective saved => self.setresuid real effective saved
  | .setresgid real effective saved => self.setresgid real effective saved
  | .pledge text execText => some (self.pledge text execText).1

variable {ids} {s t s' : Process} {calls : List Call}

/-- What calls leave to a process. -/
structure Restricts (s s' : Process) : Prop where
  /-- No id is new if no user id is 0. -/
  ids : ¬(s.ids .uid).ok 0 → ∀ kind id, (s'.ids kind).ok id → (s.ids kind).ok id
  /-- A dumpable process has its old effective ids. -/
  dumpable : s'.dumpable → s.dumpable ∧ ∀ kind, (s'.ids kind).effective = (s.ids kind).effective
  /-- No promise is taken back, and without the promise `id` no id changes. -/
  promises : s.promises.has → s.promises.mask ≠ 0 →
    s'.promises.has ∧ s'.promises.mask ≠ 0 ∧ (∀ p, s'.hasPromised p → s.hasPromised p) ∧
      (¬s.hasPromised "id" → s'.ids = s.ids)

theorem Restricts.trans (h : Restricts s t) (h' : Restricts t s') : Restricts s s' where
  ids h0 kind id hid := h.ids h0 kind id (h'.ids (fun ht => h0 (h.ids h0 _ _ ht)) kind id hid)
  dumpable hs' := by
    obtain ⟨ht, heq'⟩ := h'.dumpable hs'
    obtain ⟨hs, heq⟩ := h.dumpable ht
    exact ⟨hs, fun kind => (heq' kind).trans (heq kind)⟩
  promises hhas hmask := by
    obtain ⟨hhas, hmask, hp, hids⟩ := h.promises hhas hmask
    obtain ⟨hhas, hmask, hp', hids'⟩ := h'.promises hhas hmask
    refine ⟨hhas, hmask, fun p h => hp p (hp' p h), fun hid => ?_⟩
    exact (hids' fun h => hid (hp _ h)).trans (hids hid)

/-- A change of the promises alone. -/
theorem restricts_promises {promises execpromises : Promises} {text : Option Str}
    (h : s.promises.restrict text = .ok promises) :
    Restricts s { s with promises, execpromises } := by
  refine ⟨fun _ _ _ => id, fun h => ⟨h, fun _ => rfl⟩, fun hhas hmask => ?_⟩
  unfold Promises.restrict at h
  grind [Process.hasPromised]

theorem Restricts.refl (s : Process) : Restricts s s := @restricts_promises s _ _ none rfl

/-- A call whose result has no new id, unless the superuser asks. -/
theorem restricts_setIds {kind : Kind} {result : Ids → Bool → KResultOr Ids}
    (hnew : ∀ ids new, result ids false = .ok new → ∀ id, new.ok id → ids.ok id)
    (h : s.setIds kind result = some s') : Restricts s s' := by
  unfold Process.setIds at h
  split at h
  · cases h
  · rename_i hcrash
    split at h
    · exact Option.some.inj h ▸ .refl s
    · rename_i new hresult
      obtain rfl := Option.some.inj h
      refine ⟨fun h0 => ?_, fun hd => ?_, fun hhas hmask => ?_⟩
      · rw [decide_eq_false (by grind [Ids.ok])] at hresult
        grind [update_apply]
      · grind [update_apply]
      · exact ⟨hhas, hmask, fun _ => id, fun hid => absurd ⟨hhas, hid⟩ hcrash⟩

/-- **Calls only take privileges away**, in every order. -/
theorem restricts_of_run (hrun : run step s calls = some s') : Restricts s s' := by
  refine run_invariant (fun t call u ht hu => ht.trans ?_) (.refl s) hrun
  cases call with
  | pledge text execText =>
    obtain rfl := Option.some.inj hu
    unfold Process.pledge
    repeat' split
    · exact .refl t
    · exact .refl t
    · exact restricts_promises ‹_›
    · exact restricts_promises ‹_›
  | _ =>
    simp only [step, Process.seteuid, Process.setegid, Process.setuid, Process.setgid,
      Process.setreuid, Process.setresuid, Process.setresgid] at hu
    refine restricts_setIds ?_ hu
    grind [seteid, setid, setresid, setreuid, Ids.ok]

theorem restricts_of_run_setuid : ∃ s', (s'.ids .uid).saved = 2 ∧
    Restricts ⟨fun _ => ⟨1, 2, 3⟩, true, ⟨true, 64⟩, ⟨false, 0⟩⟩ s' :=
  have h : run step _ [.setuid 2] = some _ := rfl
  ⟨_, rfl, restricts_of_run h⟩

end Kernel.Privileges

import CrudLayers.Program.Scene

namespace CrudLayers

theorem except_bind_eq_ok {ε α β : Type} {x : Except ε α} {f : α → Except ε β} {b : β} :
    x >>= f = .ok b ↔ ∃ a, x = .ok a ∧ f a = .ok b := by
  cases x with
  | ok a => simp [bind, Except.bind]
  | error e => simp [bind, Except.bind]

theorem except_map_eq_ok {ε α β : Type} {x : Except ε α} {f : α → β} {b : β} :
    x.map f = .ok b ↔ ∃ a, x = .ok a ∧ f a = b := by
  cases x with
  | ok a => simp [Except.map]
  | error e => simp [Except.map]

def Disk.answer (d : Disk) (c : Call) : c.Reply × Disk :=
  (((Scene.ofDisk d).answer c).1, ((Scene.ofDisk d).answer c).2.disk)

theorem Scene.change_disk (s : Scene) (r : Except DiskFault Disk) :
    (s.change r).1 = ((Scene.ofDisk s.disk).change r).1 ∧
      (s.change r).2.disk = ((Scene.ofDisk s.disk).change r).2.disk := by
  cases r with
  | ok d => exact ⟨rfl, rfl⟩
  | error e => exact ⟨rfl, rfl⟩

theorem Scene.answer_disk (s : Scene) (c : Call) :
    (s.answer c).1 = (s.disk.answer c).1 ∧ (s.answer c).2.disk = (s.disk.answer c).2 := by
  cases c with
  | makeDirectory path => exact s.change_disk _
  | setMode path mode => exact s.change_disk _
  | rename source target => exact s.change_disk _
  | makeTemporary directory =>
    simp only [Disk.answer, answer, ofDisk]
    cases s.disk.makeTemporary directory with
    | ok made => exact ⟨rfl, rfl⟩
    | error e => exact ⟨rfl, rfl⟩
  | append path bytes =>
    simp only [Disk.answer, answer, ofDisk]
    cases s.disk.append path bytes with
    | ok d => exact ⟨rfl, rfl⟩
    | error e => exact ⟨rfl, rfl⟩
  | discard path =>
    refine ⟨rfl, ?_⟩
    simp only [Disk.answer, answer, ofDisk]
    cases s.disk.remove path with
    | ok d => rfl
    | error e => rfl
  | isDirectory path => exact ⟨rfl, rfl⟩
  | isFile path => exact ⟨rfl, rfl⟩
  | isPresent path => exact ⟨rfl, rfl⟩
  | mode path => exact ⟨rfl, rfl⟩
  | read path => exact ⟨rfl, rfl⟩
  | sync path => exact ⟨rfl, rfl⟩
  | say text => exact ⟨rfl, rfl⟩
  | note event => exact ⟨rfl, rfl⟩

section Current

variable {d e : Disk} {path : String}

theorem current_make {entry : Entry} (h : d.make path entry = .ok e) : e.current = d.current := by
  simp only [Disk.make, bind, Except.bind] at h
  repeat' split at h
  all_goals cases h
  all_goals rfl

theorem current_makeTemporary {directory made : String}
    (h : d.makeTemporary directory = .ok (made, e)) : e.current = d.current := by
  simp only [Disk.makeTemporary, bind, Except.bind] at h
  repeat' split at h
  all_goals cases h
  rename_i hmake
  exact current_make hmake

theorem current_append {bytes : List UInt8} (h : d.append path bytes = .ok e) :
    e.current = d.current := by
  simp only [Disk.append, bind, Except.bind] at h
  repeat' split at h
  all_goals cases h
  all_goals rfl

theorem current_setMode {mode : Nat} (h : d.setMode path mode = .ok e) :
    e.current = d.current := by
  simp only [Disk.setMode, bind, Except.bind] at h
  repeat' split at h
  all_goals cases h
  all_goals rfl

theorem current_rename {target : String} (h : d.rename path target = .ok e) :
    e.current = d.current := by
  simp only [Disk.rename, bind, Except.bind] at h
  repeat' split at h
  all_goals cases h
  all_goals rfl

theorem current_remove (h : d.remove path = .ok e) : e.current = d.current := by
  simp only [Disk.remove, bind, Except.bind] at h
  repeat' split at h
  all_goals cases h
  all_goals rfl

theorem current_change {r : Except DiskFault Disk} (h : ∀ e, r = .ok e → e.current = d.current) :
    ((Scene.ofDisk d).change r).2.disk.current = d.current := by
  cases r with
  | ok e => exact h e rfl
  | error fault => rfl

/-- No call goes to another directory. -/
theorem current_answer (d : Disk) (c : Call) : (d.answer c).2.current = d.current := by
  cases c with
  | makeDirectory path => exact current_change (fun _ h => current_make h)
  | setMode path mode => exact current_change (fun _ h => current_setMode h)
  | rename source target => exact current_change (fun _ h => current_rename h)
  | makeTemporary directory =>
    simp only [Disk.answer, Scene.answer, Scene.ofDisk]
    cases hm : d.makeTemporary directory with
    | ok made => exact current_makeTemporary hm
    | error fault => rfl
  | append path bytes =>
    simp only [Disk.answer, Scene.answer, Scene.ofDisk]
    cases hm : d.append path bytes with
    | ok e => exact current_append hm
    | error fault => rfl
  | discard path =>
    simp only [Disk.answer, Scene.answer, Scene.ofDisk]
    cases hm : d.remove path with
    | ok e => exact current_remove hm
    | error fault => rfl
  | isDirectory path => rfl
  | isFile path => rfl
  | isPresent path => rfl
  | mode path => rfl
  | read path => rfl
  | sync path => rfl
  | say text => rfl
  | note event => rfl

end Current

namespace Program

variable {α β : Type}

def onDisk : Program α → Disk → α × Disk
  | done a, d => (a, d)
  | ask c next, d => (next (d.answer c).1).onDisk (d.answer c).2

theorem run_disk (p : Program α) (s : Scene) :
    (p.run s).1 = (p.onDisk s.disk).1 ∧ (p.run s).2.disk = (p.onDisk s.disk).2 := by
  induction p generalizing s with
  | done a => exact ⟨rfl, rfl⟩
  | ask c next ih =>
    obtain ⟨hreply, hdisk⟩ := s.answer_disk c
    rw [run, onDisk, ← hreply, ← hdisk]
    exact ih _ _

theorem current_onDisk (p : Program α) (d : Disk) : (p.onDisk d).2.current = d.current := by
  induction p generalizing d with
  | done a => rfl
  | ask c next ih =>
    rw [onDisk, ih]
    exact current_answer d c

theorem onDisk_bind (p : Program α) (f : α → Program β) (d : Disk) :
    (p >>= f).onDisk d = (f (p.onDisk d).1).onDisk (p.onDisk d).2 := by
  induction p generalizing d with
  | done a => rfl
  | ask c next ih => exact ih _ _

end Program

namespace Attempt

variable {ε φ α β : Type} {d e : Disk}

def onDisk (x : Attempt ε α) (d : Disk) : Except ε α × Disk :=
  Program.onDisk x.run d

theorem onDisk_of_run {x : Attempt ε α} {s s' : Scene} {r : Except ε α}
    (h : x.run.run s = (r, s')) : onDisk x s.disk = (r, s'.disk) := by
  obtain ⟨hr, hd⟩ := Program.run_disk x.run s
  rw [h] at hr hd
  exact Prod.ext hr.symm hd.symm

theorem run_of_onDisk {x : Attempt ε α} {s : Scene} {r : Except ε α}
    (h : onDisk x s.disk = (r, e)) : ∃ s', x.run.run s = (r, s') ∧ s'.disk = e := by
  obtain ⟨hr, hd⟩ := Program.run_disk x.run s
  refine ⟨(x.run.run s).2, Prod.ext ?_ rfl, ?_⟩
  · exact hr.trans (congrArg Prod.fst h)
  · exact hd.trans (congrArg Prod.snd h)

theorem current_of_onDisk {x : Attempt ε α} {r : Except ε α} (h : onDisk x d = (r, e)) :
    e.current = d.current := by
  have hc := Program.current_onDisk x.run d
  rwa [show Program.onDisk x.run d = (r, e) from h] at hc

theorem onDisk_lift (p : Program α) :
    onDisk (ExceptT.lift p : Attempt ε α) d = (.ok (p.onDisk d).1, (p.onDisk d).2) :=
  Program.onDisk_bind p _ d

/-- An attempt whose fault is caught succeeds whatever its outcome. -/
theorem onDisk_caught {x : Attempt ε α} {r : Except ε α} (h : onDisk x d = (r, e)) :
    onDisk (ExceptT.lift x.run : Attempt ε (Except ε α)) d = (.ok r, e) := by
  rw [onDisk_lift]
  exact congrArg (fun q => (Except.ok q.1, q.2)) h

theorem onDisk_attempt (p : Program (Except DiskFault α)) (fault : DiskFault → ε) :
    onDisk (attempt p fault) d = ((p.onDisk d).1.mapError fault, (p.onDisk d).2) :=
  Program.onDisk_bind p _ d

theorem onDisk_adapt (x : Attempt ε α) (f : ε → φ) :
    onDisk (ExceptT.adapt f x) d = ((onDisk x d).1.mapError f, (onDisk x d).2) :=
  Program.onDisk_bind x _ d

theorem onDisk_bind (x : Attempt ε α) (f : α → Attempt ε β) : onDisk (x >>= f) d =
    match onDisk x d with
    | (.ok a, e) => onDisk (f a) e
    | (.error fault, e) => (.error fault, e) := by
  refine (Program.onDisk_bind x _ d).trans ?_
  change _ = match Program.onDisk x d with
    | (.ok a, e) => onDisk (f a) e
    | (.error fault, e) => (.error fault, e)
  cases Program.onDisk x d with
  | mk reply e =>
    cases reply with
    | ok a => rfl
    | error fault => rfl

theorem onDisk_bind_of_ok {x : Attempt ε α} {a : α} (h : onDisk x d = (.ok a, e))
    (f : α → Attempt ε β) : onDisk (x >>= f) d = onDisk (f a) e := by
  rw [onDisk_bind, h]

/-- What succeeds in two steps has succeeded in the first, and then in the second. -/
theorem ok_of_bind_ok {x : Attempt ε α} {f : α → Attempt ε β} {b : β}
    (h : onDisk (x >>= f) d = (.ok b, e)) :
    ∃ a m, onDisk x d = (.ok a, m) ∧ onDisk (f a) m = (.ok b, e) := by
  rw [onDisk_bind] at h
  cases hx : onDisk x d with
  | mk reply m =>
    rw [hx] at h
    cases reply with
    | ok a => exact ⟨a, m, rfl, h⟩
    | error fault => cases h

theorem mapError_eq_ok {r : Except ε α} {f : ε → φ} {a : α} (h : r.mapError f = .ok a) :
    r = .ok a := by
  cases r with
  | ok b =>
    have hb : (Except.ok b : Except φ α) = .ok a := h
    cases hb
    rfl
  | error fault => cases h

theorem ok_of_adapt_ok {x : Attempt ε α} {f : ε → φ} {a : α}
    (h : onDisk (ExceptT.adapt f x) d = (.ok a, e)) : onDisk x d = (.ok a, e) := by
  rw [onDisk_adapt, Prod.mk.injEq] at h
  exact Prod.ext (mapError_eq_ok h.1) h.2

theorem onDisk_adapt_ok {x : Attempt ε α} {a : α} (h : onDisk x d = (.ok a, e)) (f : ε → φ) :
    onDisk (ExceptT.adapt f x) d = (.ok a, e) := by
  rw [onDisk_adapt, h]
  rfl

theorem ok_of_attempt_ok {p : Program (Except DiskFault α)} {fault : DiskFault → ε} {a : α}
    (h : onDisk (attempt p fault) d = (.ok a, e)) : p.onDisk d = (.ok a, e) := by
  rw [onDisk_attempt, Prod.mk.injEq] at h
  exact Prod.ext (mapError_eq_ok h.1) h.2

theorem onDisk_attempt_ok {p : Program (Except DiskFault α)} {a : α} (h : p.onDisk d = (.ok a, e))
    (fault : DiskFault → ε) : onDisk (attempt p fault) d = (.ok a, e) := by
  rw [onDisk_attempt, h]
  rfl

end Attempt

end CrudLayers

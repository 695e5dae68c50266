import CrudLayers.Proofs.Replacing
import CrudLayers.Proofs.Runs

namespace CrudLayers

/-- What a disk may reply to a call, and the disk afterwards. A call that fails changes nothing, and
one that succeeds has done its work, except that an append may do a part of it. Only the removal of
a temporary file fails for no other reason than what the disk holds. The names that temporary files
may be given are `spare`. -/
def Disk.MayReply (spare : String → Prop) (d : Disk) : (c : Call) → c.Reply → Disk → Prop
  | .makeDirectory path, .ok (), e => d.makeDirectory path = .ok e
  | .makeDirectory _, .error _, e => e = d
  | .isDirectory path, there, e => (there = true → d.isDirectory path = true) ∧ e = d
  | .isFile path, there, e => (there = true → d.isFile path = true) ∧ e = d
  | .isPresent path, there, e => (there = true → d.isPresent path = true) ∧ e = d
  | .mode path, mode, e => (∀ m, mode = some m → d.mode? path = some m) ∧ e = d
  | .read path, .ok bytes, e => d.read path = .ok bytes ∧ e = d
  | .read _, .error _, e => e = d
  | .makeTemporary directory, .ok path, e => ∃ name, spare name ∧ Path.IsName name ∧
      path = Path.join directory name ∧ d.make path (.file [] Entry.privateMode) = .ok e
  | .makeTemporary _, .error _, e => e = d
  | .append path bytes, .ok taken, e =>
      taken ≤ bytes.length ∧ d.append path (bytes.take taken) = .ok e
  | .append _ _, .error _, e => e = d
  | .sync _, _, e => e = d
  | .setMode path mode, .ok (), e => d.setMode path mode = .ok e
  | .setMode _ _, .error _, e => e = d
  | .rename source target, .ok (), e => d.rename source target = .ok e
  | .rename _ _, .error _, e => e = d
  | .discard path, (), e => d.remove path = .ok e ∨ (∃ fault, d.remove path = .error fault) ∧ e = d
  | .say _, (), e => e = d
  | .note _, (), e => e = d

variable {spare : String → Prop}

theorem mayReply_makeTemporary {d e : Disk} {directory path : String}
    (hspare : ∀ n, spare (Disk.temporaryName n))
    (h : d.makeTemporary directory = .ok (path, e)) :
    d.MayReply spare (.makeTemporary directory) (.ok path : Except DiskFault String) e := by
  simp only [Disk.makeTemporary, bind, Except.bind] at h
  repeat' split at h
  all_goals cases h
  rename_i name hfree made hmake
  obtain ⟨n, _, rfl⟩ := List.mem_map.mp (List.mem_of_find?_eq_some hfree)
  exact ⟨_, hspare n, Disk.isName_temporaryName n, rfl, hmake⟩

/-- The disk that is a value replies as a disk may. -/
theorem mayReply_answer (hspare : ∀ n, spare (Disk.temporaryName n)) (d : Disk) (c : Call) :
    d.MayReply spare c (d.answer c).1 (d.answer c).2 := by
  cases c with
  | makeDirectory path =>
    simp only [Disk.answer, Scene.answer, Scene.ofDisk]
    cases hm : d.makeDirectory path with
    | ok e => exact hm
    | error fault => exact rfl
  | isDirectory path => exact ⟨id, rfl⟩
  | isFile path => exact ⟨id, rfl⟩
  | isPresent path => exact ⟨id, rfl⟩
  | mode path => exact ⟨fun _ => id, rfl⟩
  | read path =>
    simp only [Disk.answer, Scene.answer, Scene.ofDisk]
    cases hr : d.read path with
    | ok bytes => exact ⟨hr, rfl⟩
    | error fault => exact rfl
  | makeTemporary directory =>
    simp only [Disk.answer, Scene.answer, Scene.ofDisk]
    cases hm : d.makeTemporary directory with
    | ok made => exact mayReply_makeTemporary hspare hm
    | error fault => exact rfl
  | append path bytes =>
    simp only [Disk.answer, Scene.answer, Scene.ofDisk]
    cases ha : d.append path bytes with
    | ok e => exact ⟨Nat.le_refl _, by rwa [List.take_length]⟩
    | error fault => exact rfl
  | sync path => exact rfl
  | setMode path mode =>
    simp only [Disk.answer, Scene.answer, Scene.ofDisk]
    cases hm : d.setMode path mode with
    | ok e => exact hm
    | error fault => exact rfl
  | rename source target =>
    simp only [Disk.answer, Scene.answer, Scene.ofDisk]
    cases hm : d.rename source target with
    | ok e => exact hm
    | error fault => exact rfl
  | discard path =>
    simp only [Disk.answer, Scene.answer, Scene.ofDisk]
    cases hm : d.remove path with
    | ok e => exact Or.inl hm
    | error fault => exact Or.inr ⟨⟨fault, hm⟩, rfl⟩
  | say text => exact rfl
  | note event => exact rfl

def Call.looks : Call → Bool
  | isDirectory _ | isFile _ | isPresent _ | mode _ | read _ | sync _ | say _ | note _ => true
  | _ => false

theorem disk_of_looks {d e : Disk} {c : Call} {reply : c.Reply} (h : c.looks = true)
    (hr : d.MayReply spare c reply e) : e = d := by
  cases c with
  | isDirectory path => exact hr.2
  | isFile path => exact hr.2
  | isPresent path => exact hr.2
  | mode path => exact hr.2
  | read path =>
    cases reply with
    | ok bytes => exact hr.2
    | error fault => exact hr
  | sync path => exact hr
  | say text => exact hr
  | note event => exact hr
  | makeDirectory path => cases h
  | makeTemporary directory => cases h
  | append path bytes => cases h
  | setMode path mode => cases h
  | rename source target => cases h
  | discard path => cases h

namespace Program

variable {α : Type}

/-- The program can end with a value, and leave a disk so, if every call is replied to as a disk
may. -/
inductive Runs (spare : String → Prop) : Program α → Disk → α → Disk → Prop where
  | done (a : α) (d : Disk) : Runs spare (.done a) d a d
  | ask {c : Call} {next : c.Reply → Program α} {d m e : Disk} {reply : c.Reply} {a : α}
      (replied : d.MayReply spare c reply m) (tail : Runs spare (next reply) m a e) :
      Runs spare (.ask c next) d a e

/-- A run on the disk that is a value is one of the runs that there may be. -/
theorem runs_onDisk (hspare : ∀ n, spare (Disk.temporaryName n)) (p : Program α) (d : Disk) :
    p.Runs spare d (p.onDisk d).1 (p.onDisk d).2 := by
  induction p generalizing d with
  | done a => exact .done a d
  | ask c next ih => exact .ask (mayReply_answer hspare d c) (ih _ _)

end Program

end CrudLayers

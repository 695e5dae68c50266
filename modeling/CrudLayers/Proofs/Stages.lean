import CrudLayers.Generation.Write
import CrudLayers.Proofs.Replies

namespace CrudLayers

theorem Program.bind_call {α β : Type} (c : Call) (f : c.Reply → Program α) (g : α → Program β) :
    (Program.call c >>= f).bind g = .ask c (fun reply => (f reply).bind g) := rfl

namespace Attempt

variable {ε α β γ : Type}

theorem run_lift_bind (p : Program α) (f : α → Attempt ε β) :
    (ExceptT.lift p >>= f).run = p.bind (fun a => (f a).run) := by
  change (p.bind _).bind _ = _
  rw [Program.bind_assoc]
  rfl

/-- An attempt goes on with what it has come to, or gives up. -/
theorem run_bind (x : Attempt ε α) (f : α → Attempt ε β) : (x >>= f).run = x.run.bind (fun reply =>
    match reply with
    | .ok a => (f a).run
    | .error fault => .done (.error fault)) := by
  refine congrArg (Program.bind x.run) (funext ?_)
  intro reply
  cases reply <;> rfl

theorem run_attempt_bind (p : Program (Except DiskFault α)) (fault : DiskFault → ε)
    (f : α → Attempt ε β) : (attempt p fault >>= f).run = p.bind (fun reply =>
      match reply with
      | .ok a => (f a).run
      | .error e => .done (.error (fault e))) := by
  rw [run_bind]
  change (p.bind _).bind _ = _
  rw [Program.bind_assoc]
  congr 1
  funext reply
  cases reply <;> rfl

theorem run_attempt_bind_bind (p : Program (Except DiskFault α)) (fault : DiskFault → ε)
    (f : α → Attempt ε β) (next : Except ε β → Program γ) :
    (attempt p fault >>= f).run.bind next = p.bind (fun reply =>
      match reply with
      | .ok a => (f a).run.bind next
      | .error e => next (.error (fault e))) := by
  rw [run_attempt_bind, Program.bind_assoc]
  congr 1
  funext reply
  cases reply <;> rfl

end Attempt

namespace Write

/-- How far a write has come: it has no temporary file, it has one that holds some bytes, or the
target has been replaced by it. -/
inductive Stage where
  | bare
  | filling (temporary : String) (held : List UInt8)
  | renamed
deriving DecidableEq

/-- What is left of a write of a text to a path, at each of its stages and whatever the replies. -/
inductive AtStage (path text : String) :
    Stage → Program (Except PathFault WriteStatus) → Prop where
  | refused (fault : PathFault) : AtStage path text .bare (.done (.error fault))
  | finished (status : WriteStatus) : AtStage path text .renamed (.done (.ok status))
  | look {stage : Stage} {c : Call} {next : c.Reply → Program (Except PathFault WriteStatus)}
      (looks : c.looks = true) (tail : ∀ reply, AtStage path text stage (next reply)) :
      AtStage path text stage (.ask c next)
  | enlarge {directory : String}
      {next : Except DiskFault Unit → Program (Except PathFault WriteStatus)}
      (parent : directory ∈ Path.upward (Path.holder path))
      (tail : ∀ reply, AtStage path text .bare (next reply)) :
      AtStage path text .bare (.ask (.makeDirectory directory) next)
  | start {next : Except DiskFault String → Program (Except PathFault WriteStatus)}
      (made : ∀ temporary, AtStage path text (.filling temporary []) (next (.ok temporary)))
      (refused : ∀ fault, AtStage path text .bare (next (.error fault))) :
      AtStage path text .bare (.ask (.makeTemporary (Path.holder path)) next)
  | fill {temporary : String} {held bytes : List UInt8}
      {next : Except DiskFault Nat → Program (Except PathFault WriteStatus)}
      (taken : ∀ n ≤ bytes.length,
        AtStage path text (.filling temporary (held ++ bytes.take n)) (next (.ok n)))
      (refused : ∀ fault, AtStage path text (.filling temporary held) (next (.error fault))) :
      AtStage path text (.filling temporary held) (.ask (.append temporary bytes) next)
  | permit {temporary : String} {held : List UInt8} {mode : Nat}
      {next : Except DiskFault Unit → Program (Except PathFault WriteStatus)}
      (tail : ∀ reply, AtStage path text (.filling temporary held) (next reply)) :
      AtStage path text (.filling temporary held) (.ask (.setMode temporary mode) next)
  | publish {temporary : String}
      {next : Except DiskFault Unit → Program (Except PathFault WriteStatus)}
      (renamed : AtStage path text .renamed (next (.ok ())))
      (refused : ∀ fault,
        AtStage path text (.filling temporary (Bytes.ofText text)) (next (.error fault))) :
      AtStage path text (.filling temporary (Bytes.ofText text))
        (.ask (.rename temporary path) next)
  | drop {temporary : String} {held : List UInt8}
      {next : Unit → Program (Except PathFault WriteStatus)}
      (tail : AtStage path text .bare (next ())) :
      AtStage path text (.filling temporary held) (.ask (.discard temporary) next)

section Stages

variable {path text temporary : String} {held : List UInt8}

theorem makeEach_atStage {rest : List String}
    {next : Except DiskFault Unit → Program (Except PathFault WriteStatus)}
    (hrest : ∀ directory ∈ rest, directory ∈ Path.upward (Path.holder path))
    (hnext : ∀ reply, AtStage path text .bare (next reply)) :
    AtStage path text .bare ((makeEach rest).bind next) := by
  induction rest with
  | nil => exact hnext _
  | cons directory rest ih =>
    have hmore := ih (fun p hp => hrest p (List.mem_cons_of_mem _ hp))
    rw [makeEach, Program.bind_call]
    refine .enlarge (hrest directory List.mem_cons_self) ?_
    intro reply
    cases reply with
    | ok _ => exact hmore
    | error fault =>
      refine .look rfl ?_
      intro there
      cases there with
      | true => exact hmore
      | false => exact hnext _

theorem makeMissing_atStage {missing parents : List String}
    {next : Except DiskFault Unit → Program (Except PathFault WriteStatus)}
    (hmissing : ∀ directory ∈ missing, directory ∈ Path.upward (Path.holder path))
    (hparents : ∀ directory ∈ parents, directory ∈ Path.upward (Path.holder path))
    (hnext : ∀ reply, AtStage path text .bare (next reply)) :
    AtStage path text .bare ((makeMissing missing parents).bind next) := by
  induction parents generalizing missing with
  | nil => exact makeEach_atStage hmissing hnext
  | cons directory parents ih =>
    have hself := hparents directory List.mem_cons_self
    have hmore := ih (List.forall_mem_cons.mpr ⟨hself, hmissing⟩)
      (fun p hp => hparents p (List.mem_cons_of_mem _ hp))
    have hlook : ∀ fault, AtStage path text .bare
        (.ask (.isDirectory directory) (fun there => Program.bind
          (if there then makeEach missing else return .error fault) next)) := by
      intro fault
      refine .look rfl ?_
      intro there
      cases there with
      | true => exact makeEach_atStage hmissing hnext
      | false => exact hnext _
    rw [makeMissing, Program.bind_call]
    refine .enlarge hself ?_
    intro reply
    cases reply with
    | ok _ => exact makeEach_atStage hmissing hnext
    | error fault =>
      by_cases hf : fault = .noEntry
      · subst hf
        exact hmore
      · have heq : next = next := rfl
        cases fault <;> first | exact absurd rfl hf | exact hlook _

/-- However the bytes are taken, the file holds all of them in the end, or the write gives up. -/
theorem appendAll_atStage {bytes : List UInt8}
    {next : Except DiskFault Unit → Program (Except PathFault WriteStatus)}
    (hall : AtStage path text (.filling temporary (held ++ bytes)) (next (.ok ())))
    (hsome : ∀ fault held', AtStage path text (.filling temporary held') (next (.error fault))) :
    AtStage path text (.filling temporary held) ((appendAll temporary bytes).bind next) := by
  induction bytes using appendAll.induct generalizing held with
  | case1 =>
    rw [List.append_nil] at hall
    rw [appendAll]
    exact hall
  | case2 byte rest ih =>
    rw [appendAll, Program.bind_call]
    refine .fill ?_ (fun fault => hsome _ _)
    intro n hn
    cases n with
    | zero => exact hsome _ _
    | succ n =>
      refine ih n ?_
      have hsplit : held ++ (byte :: rest).take (n + 1) ++ rest.drop n = held ++ byte :: rest := by
        simp
      rwa [hsplit]

/-- The temporary file takes the target's name when all of the text is in it. -/
theorem fillAndRename_atStage {mode : Nat}
    {next : Except PathFault Unit → Program (Except PathFault WriteStatus)}
    (hdone : AtStage path text .renamed (next (.ok ())))
    (hsome : ∀ fault held', AtStage path text (.filling temporary held') (next (.error fault))) :
    AtStage path text (.filling temporary [])
      ((fillAndRename temporary path text mode).run.bind next) := by
  rw [fillAndRename, Attempt.run_attempt_bind_bind]
  refine appendAll_atStage ?_ (fun fault held' => hsome _ _)
  rw [Attempt.run_attempt_bind_bind]
  refine .look rfl ?_
  intro synced
  cases synced with
  | error fault => exact hsome _ _
  | ok _ =>
    change AtStage path text _ (Program.bind (ExceptT.run
      (attempt (Program.call (.setMode temporary mode)) (PathFault.mk temporary) >>= _)) next)
    rw [Attempt.run_attempt_bind_bind]
    refine .permit ?_
    intro changed
    cases changed with
    | error fault => exact hsome _ _
    | ok _ => exact .publish hdone (fun fault => hsome _ _)

theorem readExisting_atStage
    {next : Except PathFault (Option String) → Program (Except PathFault WriteStatus)}
    (hnext : ∀ reply, AtStage path text .bare (next reply)) :
    AtStage path text .bare ((readExisting path).run.bind next) := by
  change AtStage path text .bare (.ask (.read path) _)
  refine .look rfl ?_
  intro reply
  cases reply with
  | ok bytes =>
    simp only [Program.bind, ExceptT.bindCont, Function.comp_apply]
    cases Bytes.text? bytes with
    | some text => exact hnext _
    | none => exact hnext _
  | error fault => cases fault <;> exact hnext _

/-- A write goes through its stages. -/
theorem writeFile_atStage (path text : String) :
    AtStage path text .bare (writeFile path text).run := by
  rw [writeFile, Attempt.run_attempt_bind]
  refine makeMissing_atStage (by simp) (fun _ h => h) ?_
  intro made
  cases made with
  | error fault => exact .refused _
  | ok _ =>
    change AtStage path text .bare (.ask (.mode path) _)
    refine .look rfl ?_
    intro mode
    change AtStage path text .bare (ExceptT.run (readExisting path >>= _))
    rw [Attempt.run_bind]
    refine readExisting_atStage ?_
    intro earlier
    cases earlier with
    | error fault => exact .refused _
    | ok earlier =>
      change AtStage path text .bare (ExceptT.run (attempt _ _ >>= _))
      rw [Attempt.run_attempt_bind]
      refine .start ?_ (fun fault => .refused _)
      intro temporary
      change AtStage path text _ (ExceptT.lift _ >>= _).run
      rw [Attempt.run_lift_bind]
      refine fillAndRename_atStage ?_ ?_
      · exact .look rfl (fun _ => .finished _)
      · intro fault held
        exact .drop (.refused _)

end Stages

/-- What one call of a write does to its stage and to the disk. -/
inductive Move (spare : String → Prop) (path text : String) :
    Stage → Disk → Stage → Disk → Prop where
  | stay (stage : Stage) (d : Disk) : Move spare path text stage d stage d
  | enlarge {d e : Disk} {directory : String}
      (parent : directory ∈ Path.upward (Path.holder path))
      (made : d.makeDirectory directory = .ok e) : Move spare path text .bare d .bare e
  | start {d e : Disk} {name : String} (free : spare name) (isName : Path.IsName name)
      (made : d.make (Path.join (Path.holder path) name) (.file [] Entry.privateMode) = .ok e) :
      Move spare path text .bare d (.filling (Path.join (Path.holder path) name) []) e
  | fill {d e : Disk} {temporary : String} {held more : List UInt8}
      (added : d.append temporary more = .ok e) :
      Move spare path text (.filling temporary held) d (.filling temporary (held ++ more)) e
  | permit {d e : Disk} {temporary : String} {held : List UInt8} {mode : Nat}
      (changed : d.setMode temporary mode = .ok e) :
      Move spare path text (.filling temporary held) d (.filling temporary held) e
  | publish {d e : Disk} {temporary : String} (moved : d.rename temporary path = .ok e) :
      Move spare path text (.filling temporary (Bytes.ofText text)) d .renamed e
  | drop {d e : Disk} {temporary : String} {held : List UInt8}
      (removed : d.remove temporary = .ok e) :
      Move spare path text (.filling temporary held) d .bare e
  | leave {d : Disk} {temporary : String} {held : List UInt8} {fault : DiskFault}
      (refused : d.remove temporary = .error fault) :
      Move spare path text (.filling temporary held) d .bare d

/-- Every reply to a call of a write moves it on, to a stage that it can go on from. -/
theorem AtStage.move {spare : String → Prop} {path text : String} {stage : Stage} {c : Call}
    {next : c.Reply → Program (Except PathFault WriteStatus)} {reply : c.Reply} {d e : Disk}
    (h : AtStage path text stage (.ask c next)) (hr : d.MayReply spare c reply e) :
    ∃ after, AtStage path text after (next reply) ∧ Move spare path text stage d after e := by
  cases h with
  | look looks tail =>
    rw [disk_of_looks looks hr]
    exact ⟨stage, tail reply, .stay stage d⟩
  | enlarge parent tail =>
    refine ⟨.bare, tail reply, ?_⟩
    cases reply with
    | ok _ => exact .enlarge parent hr
    | error fault =>
      cases hr
      exact .stay _ _
  | start made refused =>
    cases reply with
    | ok temporary =>
      obtain ⟨name, free, isName, rfl, hmake⟩ := hr
      exact ⟨_, made _, .start free isName hmake⟩
    | error fault =>
      cases hr
      exact ⟨_, refused fault, .stay _ _⟩
  | fill taken refused =>
    cases reply with
    | ok n => exact ⟨_, taken n hr.1, .fill hr.2⟩
    | error fault =>
      cases hr
      exact ⟨_, refused fault, .stay _ _⟩
  | permit tail =>
    refine ⟨_, tail reply, ?_⟩
    cases reply with
    | ok _ => exact .permit hr
    | error fault =>
      cases hr
      exact .stay _ _
  | publish renamed refused =>
    cases reply with
    | ok _ => exact ⟨_, renamed, .publish hr⟩
    | error fault =>
      cases hr
      exact ⟨_, refused fault, .stay _ _⟩
  | drop tail =>
    refine ⟨_, tail, ?_⟩
    rcases hr with hremoved | ⟨⟨fault, hrefused⟩, rfl⟩
    · exact .drop hremoved
    · exact .leave hrefused

end Write

end CrudLayers

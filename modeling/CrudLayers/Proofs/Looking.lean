import CrudLayers.CommandLine.Run
import CrudLayers.Proofs.Stages

namespace CrudLayers

variable {spare : String → Prop} {d e : Disk}

namespace Program

variable {α β : Type}

theorem runs_done {a b : α} : (done a).Runs spare d b e ↔ b = a ∧ e = d := by
  constructor
  · rintro ⟨⟩
    exact ⟨rfl, rfl⟩
  · rintro ⟨rfl, rfl⟩
    exact .done _ _

theorem runs_bind {p : Program α} {f : α → Program β} {b : β} :
    (p.bind f).Runs spare d b e ↔ ∃ a m, p.Runs spare d a m ∧ (f a).Runs spare m b e := by
  constructor
  · intro h
    induction p generalizing d with
    | done a => exact ⟨a, d, .done a d, h⟩
    | ask c next ih =>
      cases h with
      | ask replied tail =>
        obtain ⟨a, m, hfirst, hrest⟩ := ih _ tail
        exact ⟨a, m, .ask replied hfirst, hrest⟩
  · rintro ⟨a, m, hfirst, hrest⟩
    induction hfirst with
    | done => exact hrest
    | ask replied _ ih => exact .ask replied (ih hrest)

/-- The program makes no call that changes the disk, whatever the replies are. -/
inductive Looks : Program α → Prop where
  | done (a : α) : Looks (.done a)
  | ask {c : Call} {next : c.Reply → Program α} (looks : c.looks = true)
      (tail : ∀ reply, Looks (next reply)) : Looks (.ask c next)

theorem Looks.bind {p : Program α} {f : α → Program β} (hp : p.Looks) (hf : ∀ a, (f a).Looks) :
    (p.bind f).Looks := by
  induction hp with
  | done a => exact hf a
  | ask looks _ ih => exact .ask looks ih

/-- A program that only looks leaves the disk as it was. -/
theorem Looks.disk {p : Program α} {a : α} (h : p.Looks) (hr : p.Runs spare d a e) : e = d := by
  induction hr with
  | done => rfl
  | ask replied _ ih =>
    cases h with
    | ask looks tail =>
      rw [ih (tail _)]
      exact disk_of_looks looks replied

theorem looks_noteAll (events : List Event) : (noteAll events).Looks := by
  induction events with
  | nil => exact .done ()
  | cons event rest ih => exact .ask rfl (fun _ => ih)

end Program

namespace Attempt

variable {ε φ α β : Type}

/-- An attempt in two steps has come to what its second step came to, or it has given up in its
first. -/
theorem runs_bind {x : Attempt ε α} {f : α → Attempt ε β} {reply : Except ε β} :
    (x >>= f).run.Runs spare d reply e ↔
      (∃ a m, x.run.Runs spare d (.ok a) m ∧ (f a).run.Runs spare m reply e) ∨
        ∃ fault, x.run.Runs spare d (.error fault) e ∧ reply = .error fault := by
  rw [run_bind, Program.runs_bind]
  constructor
  · rintro ⟨first, m, hfirst, hrest⟩
    cases first with
    | ok a => exact Or.inl ⟨a, m, hfirst, hrest⟩
    | error fault =>
      obtain ⟨rfl, rfl⟩ := Program.runs_done.mp hrest
      exact Or.inr ⟨fault, hfirst, rfl⟩
  · rintro (⟨a, m, hfirst, hrest⟩ | ⟨fault, hfirst, rfl⟩)
    · exact ⟨_, m, hfirst, hrest⟩
    · exact ⟨_, e, hfirst, .done _ _⟩

theorem runs_adapt {x : Attempt ε α} {f : ε → φ} {reply : Except φ α} :
    (ExceptT.adapt f x).run.Runs spare d reply e ↔
      ∃ r, x.run.Runs spare d r e ∧ reply = r.mapError f := by
  change (x.run.bind (fun r => .done (r.mapError f))).Runs spare d reply e ↔ _
  rw [Program.runs_bind]
  constructor
  · rintro ⟨r, m, hx, hdone⟩
    obtain ⟨rfl, rfl⟩ := Program.runs_done.mp hdone
    exact ⟨r, hx, rfl⟩
  · rintro ⟨r, hx, rfl⟩
    exact ⟨r, e, hx, .done _ _⟩

theorem looks_ask {c : Call} (h : c.looks = true) : (ask c : Attempt ε c.Reply).run.Looks :=
  .ask h (fun _ => .done _)

theorem looks_bind {x : Attempt ε α} {f : α → Attempt ε β} (hx : x.run.Looks)
    (hf : ∀ a, (f a).run.Looks) : (x >>= f).run.Looks := by
  rw [run_bind]
  refine hx.bind ?_
  intro reply
  cases reply with
  | ok a => exact hf a
  | error fault => exact .done _

theorem looks_lift {p : Program α} (hp : p.Looks) : (ExceptT.lift p : Attempt ε α).run.Looks :=
  hp.bind (fun _ => .done _)

theorem looks_adapt {x : Attempt ε α} (f : ε → φ) (hx : x.run.Looks) :
    (ExceptT.adapt f x).run.Looks :=
  hx.bind (fun _ => .done _)

end Attempt

namespace Config

theorem looks_firstFile (paths : List String) : (firstFile paths).Looks := by
  induction paths with
  | nil => exact .done none
  | cons path rest ih =>
    refine .ask rfl ?_
    intro there
    cases there with
    | true => exact .done (some path)
    | false => exact ih

theorem looks_readFile (shown path : String) : (readFile shown path).run.Looks := by
  refine Attempt.looks_bind (Attempt.looks_ask rfl) ?_
  intro reply
  cases reply with
  | error fault => exact .done _
  | ok bytes =>
    simp only
    cases Bytes.text? bytes with
    | none => exact .done _
    | some text =>
      simp only
      cases Toml.parse? text with
      | none => exact .done _
      | some entries => exact .done _

theorem looks_load (current : String) (environment : List (String × String)) (path : String) :
    (load current environment path).run.Looks := by
  refine Attempt.looks_bind (Attempt.looks_ask rfl) (fun there => ?_)
  refine Attempt.looks_bind (Attempt.looks_ask rfl) (fun _ => ?_)
  refine Attempt.looks_bind (Attempt.looks_lift (looks_firstFile _)) ?_
  intro found
  cases found with
  | none => exact .done _
  | some path => exact Attempt.looks_bind (looks_readFile _ _) (fun _ => .done _)

end Config

namespace CommandLine

def plainGlobals : Globals :=
  ⟨Config.standardFile, false, .pretty⟩

def Outcome.ofReply : Except Failure Nat → Outcome
  | .ok code => ⟨code, ""⟩
  | .error f => ⟨1, f.text⟩

theorem conclude_eq (s : Surroundings) (i : Invocation) :
    conclude s i = (invoke s i).run.bind (fun reply => .done (Outcome.ofReply reply)) := by
  refine congrArg (Program.bind _) (funext ?_)
  intro reply
  cases reply <;> rfl

/-- A run loads the configuration, which changes nothing, and then carries out its action or gives
up. -/
theorem runs_conclude {s : Surroundings} {i : Invocation} {outcome : Outcome}
    (h : (conclude s i).Runs spare d outcome e) :
    ∃ loaded, (Config.load s.path s.environment i.globals.config).run.Runs spare d loaded d ∧
      match loaded with
      | .error fault =>
        outcome = .ofReply (.error (.ofConfig i.globals.config fault)) ∧ e = d
      | .ok c => ∃ reply, (perform s c i.action).run.Runs spare d reply e ∧
          outcome = .ofReply reply := by
  rw [conclude_eq, Program.runs_bind] at h
  obtain ⟨reply, m, hinvoke, hlast⟩ := h
  obtain ⟨rfl, rfl⟩ := Program.runs_done.mp hlast
  have hlooks := Config.looks_load s.path s.environment i.globals.config
  rcases Attempt.runs_bind.mp hinvoke with ⟨c, m, hload, hrest⟩ | ⟨f, hload, rfl⟩
  · obtain ⟨loaded, hrun, hreply⟩ := Attempt.runs_adapt.mp hload
    obtain rfl := hlooks.disk hrun
    cases loaded with
    | error fault => cases hreply
    | ok c' =>
      cases hreply
      exact ⟨.ok c, hrun, reply, hrest, rfl⟩
  · obtain ⟨loaded, hrun, hreply⟩ := Attempt.runs_adapt.mp hload
    obtain rfl := hlooks.disk hrun
    cases loaded with
    | ok c => cases hreply
    | error fault =>
      cases hreply
      exact ⟨.error fault, hrun, rfl, rfl⟩

end CommandLine

end CrudLayers

import CrudLayers.CommandLine.Run
import CrudLayers.Proofs.Dependence
import CrudLayers.Proofs.FilePaths
import CrudLayers.Proofs.Looking
import CrudLayers.Proofs.Publishing

namespace CrudLayers

variable {spare : String → Prop} {d m e : Disk}

namespace CommandLine

/-- One step of a run: an entity is refused for its name, or has nowhere to go because the current
directory cannot be read, or one of its files is written. -/
inductive Step where
  | refuse (entity : String) (fault : NameFault)
  | lose (entity : String) (fault : DiskFault)
  | write (b : Blueprint) (l : Layer)

/-- The steps for one entity. Selecting no layer selects all. -/
def entitySteps (s : Surroundings) (c : Config) (flags : Overrides) (only : List Layer)
    (entity : String) : List Step :=
  match EntityName.ofString entity with
  | .error fault => [.refuse entity fault]
  | .ok n =>
    match ((c.options entity).override flags).directory s.current with
    | .error fault => [.lose entity fault]
    | .ok dir => (Layer.all.filter (fun l => only = [] ∨ l ∈ only)).map
        (.write (.ofOptions dir n ((c.options entity).override flags)))

def steps (s : Surroundings) (c : Config) (flags : Overrides) (only : List Layer)
    (entities : List String) : List Step :=
  entities.flatMap (entitySteps s c flags only)

/-- All of these steps are writes and succeed one after the other. Their files are put at these
places. -/
inductive Performs (spare : String → Prop) (names : ModuleNames) :
    List Step → Disk → List Location → Disk → Prop where
  | done (d : Disk) : Performs spare names [] d [] d
  | write {b : Blueprint} {l : Layer} {rest : List Step} {text : String} {status : WriteStatus}
      {d m e : Disk} {place : Location} {places : List Location}
      (rendered : b.text names l = .ok text)
      (wrote : (Write.writeFile (b.filePath l) text).run.Runs spare d (.ok status) m)
      (published : Write.Published (b.filePath l) text d place m)
      (tail : Performs spare names rest m places e) :
      Performs spare names (.write b l :: rest) d (place :: places) e

/-- Nothing is left to do, or the first of these steps fails. An entity that is refused leaves the
disk as it is, and a write that fails leaves only directories. -/
inductive Halts (spare : String → Prop) (names : ModuleNames) : List Step → Disk → Disk → Prop where
  | finished (d : Disk) : Halts spare names [] d d
  | refused (entity : String) (fault : NameFault) (rest : List Step) (d : Disk) :
      Halts spare names (.refuse entity fault :: rest) d d
  | lost (entity : String) (fault : DiskFault) (rest : List Step) (d : Disk) :
      Halts spare names (.lose entity fault :: rest) d d
  | failed {b : Blueprint} {l : Layer} {text : String} {fault : PathFault} {d e : Disk}
      (rendered : b.text names l = .ok text)
      (wrote : (Write.writeFile (b.filePath l) text).run.Runs spare d (.error fault) e)
      (grown : Write.Grown (b.filePath l) d e) (rest : List Step) :
      Halts spare names (.write b l :: rest) d e

section Steps

variable {names : ModuleNames} {first second finished left all : List Step} {step : Step}
  {places more : List Location}

theorem Performs.append (h : Performs spare names first d places m)
    (h' : Performs spare names second m more e) :
    Performs spare names (first ++ second) d (places ++ more) e := by
  induction h with
  | done => exact h'
  | write rendered wrote published _ ih => exact .write rendered wrote published (ih h')

theorem Halts.append (h : Halts spare names left d e) (hne : left ≠ []) (later : List Step) :
    Halts spare names (left ++ later) d e := by
  cases h with
  | finished => exact absurd rfl hne
  | refused entity fault rest => exact .refused entity fault _ _
  | lost entity fault rest => exact .lost entity fault _ _
  | failed rendered wrote grown rest => exact .failed rendered wrote grown _

/-- How far a run has come through its steps: those that it has finished, and those that are left of
which the first has failed. -/
structure Course (spare : String → Prop) (names : ModuleNames) (all finished left : List Step)
    (d : Disk) (places : List Location) (e : Disk) : Prop where
  split : all = finished ++ left
  reached : ∃ m, Performs spare names finished d places m ∧ Halts spare names left m e

/-- A run that has finished its steps goes on to the next ones. -/
theorem Course.next (h : Course spare names first finished [] d places m)
    {finished' : List Step} (h' : Course spare names second finished' left m more e) :
    Course spare names (first ++ second) (finished ++ finished') left d (places ++ more) e := by
  obtain ⟨m', hperforms, hhalts⟩ := h.reached
  obtain ⟨m'', hperforms', hhalts'⟩ := h'.reached
  cases hhalts
  refine ⟨?_, m'', hperforms.append hperforms', hhalts'⟩
  rw [h.split, h'.split, List.append_nil, List.append_assoc]

/-- A run that has failed takes none of the steps that come after. -/
theorem Course.stop (h : Course spare names all finished left d places e) (hne : left ≠ [])
    (later : List Step) :
    Course spare names (all ++ later) finished (left ++ later) d places e := by
  obtain ⟨m, hperforms, hhalts⟩ := h.reached
  exact ⟨by rw [h.split, List.append_assoc], m, hperforms, hhalts.append hne later⟩

theorem Performs.untouched (h : Performs spare names finished d places e) {l : Location}
    (hl : l ∉ places) : Write.Untouched d e l := by
  induction h with
  | done d => exact .refl d l
  | write _ _ published _ ih =>
    rw [List.mem_cons, not_or] at hl
    exact (published.untouched hl.1).trans (ih hl.2)

theorem Halts.untouched (h : Halts spare names left d e) (l : Location) :
    Write.Untouched d e l := by
  cases h with
  | finished => exact .refl d l
  | refused => exact .refl d l
  | lost => exact .refl d l
  | failed _ _ grown => exact grown.untouched l

/-- Each place is under the file name of a step that has been finished. -/
theorem Performs.named (h : Performs spare names finished d places e) {place : Location}
    (hp : place ∈ places) :
    ∃ b l holder, .write b l ∈ finished ∧ place = holder ++ [l.fileName b.name.text] := by
  induction h with
  | done => cases hp
  | @write b l _ _ _ _ _ _ _ _ _ _ published _ ih =>
    rcases List.mem_cons.mp hp with rfl | hrest
    · obtain ⟨_, holder, name, rfl, hname⟩ := published.found
      rw [b.fileName?_filePath, Option.some.injEq] at hname
      exact ⟨b, l, holder, List.mem_cons_self, by rw [hname]⟩
    · obtain ⟨b', l', holder, hmem, rfl⟩ := ih hrest
      exact ⟨b', l', holder, List.mem_cons_of_mem _ hmem, rfl⟩

/-- What stands under the file name of an entity's layer is untouched, in any directory, unless a
finished step wrote that layer of that entity. -/
theorem Course.untouched (h : Course spare names all finished left d places e)
    {n : EntityName} {l : Layer} (hn : ∀ b, .write b l ∈ finished → b.name ≠ n)
    (holder : Location) : Write.Untouched d e (holder ++ [l.fileName n.text]) := by
  obtain ⟨m, hperforms, hhalts⟩ := h.reached
  refine (hperforms.untouched ?_).trans (hhalts.untouched _)
  intro hmem
  obtain ⟨b, l', holder', hstep, hplace⟩ := hperforms.named hmem
  have hname : l.fileName n.text = l'.fileName b.name.text := by
    simpa using (List.append_inj' hplace rfl).2
  obtain ⟨rfl, hsame⟩ := Layer.fileName_inj hname
  exact hn b hstep hsame.symm

end Steps

end CommandLine

namespace CommandLine

/-- However an attempt runs, it takes these steps from the first on, and it succeeds if and only if
all of them do. -/
def Follows {ε α : Type} (spare : String → Prop) (names : ModuleNames) (x : Attempt ε α)
    (all : List Step) : Prop :=
  ∀ d reply e, x.run.Runs spare d reply e → ∃ finished left places,
    Course spare names all finished left d places e ∧ (reply.isOk = true ↔ left = [])

section Follows

variable {ε φ α β : Type} {names : ModuleNames} {first second : List Step}

@[simp] theorem isOk_ok (a : α) : (Except.ok a : Except ε α).isOk = true :=
  rfl

@[simp] theorem isOk_error (fault : ε) : (Except.error fault : Except ε α).isOk = false :=
  rfl

theorem Follows.bind {x : Attempt ε α} {f : α → Attempt ε β} (hx : Follows spare names x first)
    (hf : ∀ a, Follows spare names (f a) second) :
    Follows spare names (x >>= f) (first ++ second) := by
  intro d reply e h
  rcases Attempt.runs_bind.mp h with ⟨a, m, hfirst, hrest⟩ | ⟨fault, hfirst, rfl⟩
  · obtain ⟨finished, left, places, hcourse, hok⟩ := hx d _ m hfirst
    obtain rfl := hok.mp rfl
    obtain ⟨finished', left, more, hcourse', hok'⟩ := hf a m _ e hrest
    exact ⟨_, left, _, hcourse.next hcourse', hok'⟩
  · obtain ⟨finished, left, places, hcourse, hok⟩ := hx d _ e hfirst
    have hne : left ≠ [] := fun hnil => by cases hok.mpr hnil
    refine ⟨finished, left ++ second, places, hcourse.stop hne second, ?_⟩
    simp [hne]

theorem Follows.last {x : Attempt ε α} {f : α → Attempt ε β} (hx : Follows spare names x first)
    (hf : ∀ a, Follows spare names (f a) []) : Follows spare names (x >>= f) first := by
  have hall := hx.bind hf
  rwa [List.append_nil] at hall

theorem Follows.adapt {x : Attempt ε α} (hx : Follows spare names x first) (f : ε → φ) :
    Follows spare names (ExceptT.adapt f x) first := by
  intro d reply e h
  obtain ⟨r, hrun, rfl⟩ := Attempt.runs_adapt.mp h
  obtain ⟨finished, left, places, hcourse, hok⟩ := hx d r e hrun
  refine ⟨finished, left, places, hcourse, ?_⟩
  rw [← hok]
  cases r <;> rfl

end Follows

section Commands

variable {s : Surroundings} {c : Config} {flags : Overrides} {only : List Layer}

end Commands

section Order

end Order

end CommandLine

end CrudLayers

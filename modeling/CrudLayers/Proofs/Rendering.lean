import CrudLayers.Proofs.Sequence

namespace CrudLayers

def SourceFile.Fillable (f : SourceFile) : Prop :=
  ∀ m ∈ f.decl.methods, m.Fillable

variable {spare : String → Prop} {d e : Disk}

namespace Program

/-- Notes are always taken. -/
theorem runs_noteAll (events : List Event) : (noteAll events).Runs spare d () e ↔ e = d := by
  constructor
  · exact (looks_noteAll events).disk
  · intro h
    subst h
    induction events with
    | nil => exact .done () e
    | cons event rest ih =>
      have hnoted : e.MayReply spare (.note event) () e := rfl
      exact .ask hnoted ih

end Program

namespace Attempt

variable {α β : Type}

/-- However the attempt runs, it does not give up for want of a text. -/
def OnlyDiskFaults (x : Attempt GenerationFault α) : Prop :=
  ∀ (spare : String → Prop) (d : Disk) (fault : PrintFault) (e : Disk),
    ¬ x.run.Runs spare d (.error (.text fault)) e

theorem OnlyDiskFaults.bind {x : Attempt GenerationFault α} {f : α → Attempt GenerationFault β}
    (hx : OnlyDiskFaults x) (hf : ∀ a, OnlyDiskFaults (f a)) : OnlyDiskFaults (x >>= f) := by
  intro spare d fault e h
  rcases runs_bind.mp h with ⟨a, m, _, hrest⟩ | ⟨fault', hfirst, heq⟩
  · exact hf a spare m fault e hrest
  · cases heq
    exact hx spare d fault e hfirst

theorem onlyDiskFaults_lift (p : Program α) :
    OnlyDiskFaults (ExceptT.lift p : Attempt GenerationFault α) := by
  intro spare d fault e h
  obtain ⟨a, m, _, hlast⟩ := Program.runs_bind.mp h
  cases (Program.runs_done.mp hlast).1

theorem onlyDiskFaults_pure (a : α) : OnlyDiskFaults (pure a : Attempt GenerationFault α) :=
  onlyDiskFaults_lift (.done a)

theorem onlyDiskFaults_adapt (x : Attempt PathFault α) :
    OnlyDiskFaults (ExceptT.adapt GenerationFault.disk x) := by
  intro spare d fault e h
  obtain ⟨r, _, hr⟩ := runs_adapt.mp h
  cases r with
  | ok a => cases hr
  | error fault' => cases hr

end Attempt

namespace Blueprint

open Attempt

variable (b : Blueprint) (names : ModuleNames)

/-- Rendering comes to the text, whatever happens around it, and leaves the disk as it is. -/
theorem runs_render {l : Layer} {text : String} (h : b.text names l = .ok text)
    {reply : Except GenerationFault String} :
    (b.render names l).run.Runs spare d reply e ↔ reply = .ok text ∧ e = d := by
  rw [run_render b names h, Program.runs_bind]
  constructor
  · intro hrun
    obtain ⟨_, m, hnote, hlast⟩ := hrun
    obtain ⟨rfl, rfl⟩ := Program.runs_done.mp hlast
    exact ⟨rfl, (Program.runs_noteAll _).mp hnote⟩
  · intro hrun
    obtain ⟨rfl, rfl⟩ := hrun
    exact ⟨(), e, (Program.runs_noteAll _).mpr rfl, .done _ _⟩

theorem onlyDiskFaults_render (l : Layer) : OnlyDiskFaults (b.render names l) := by
  intro spare d fault e h
  cases ((b.runs_render names (b.text_eq_plainText names l)).mp h).1

theorem onlyDiskFaults_generate (l : Layer) : OnlyDiskFaults (b.generate names l) := by
  apply (b.onlyDiskFaults_render names l).bind
  intro text
  apply (onlyDiskFaults_adapt _).bind
  intro status
  exact (onlyDiskFaults_lift _).bind (fun _ => onlyDiskFaults_pure _)

theorem onlyDiskFaults_generateEach (layers : List Layer) :
    OnlyDiskFaults (b.generateEach names layers) := by
  induction layers with
  | nil => exact onlyDiskFaults_pure []
  | cons l rest ih =>
    apply (b.onlyDiskFaults_generate names l).bind
    intro file
    exact ih.bind (fun files => onlyDiskFaults_pure (file :: files))

theorem onlyDiskFaults_checkLayer (l : Layer) : OnlyDiskFaults (b.checkLayer names l) := by
  apply (b.onlyDiskFaults_render names l).bind
  intro expected
  apply (onlyDiskFaults_adapt _).bind
  intro current
  dsimp only
  split
  · exact (onlyDiskFaults_lift _).bind (fun _ => onlyDiskFaults_pure _)
  · exact (onlyDiskFaults_pure ()).bind (fun _ => onlyDiskFaults_pure _)

theorem onlyDiskFaults_checkEach (layers : List Layer) :
    OnlyDiskFaults (b.checkEach names layers) := by
  induction layers with
  | nil => exact onlyDiskFaults_pure []
  | cons l rest ih =>
    apply (b.onlyDiskFaults_checkLayer names l).bind
    intro check
    exact ih.bind (fun checks => onlyDiskFaults_pure (check :: checks))

/-- Every layer can be rendered: its bodies can be filled, and then its skeleton, and what this
gives is the text as it is. It starts with the header's line and ends with a brace and one line
feed. Rendering comes to this text in every run, and to nothing else; so no run that generates or
compares layers fails but for the disk. -/
theorem every_layer_rendered (b : Blueprint) (names : ModuleNames) :
    (∀ l, (b.sourceFile names l).Fillable ∧ ∃ methods text body,
      printMethods (b.sourceFile names l).decl.methods = .ok methods ∧
      fillRegistered "file" ((b.sourceFile names l).skeletonValues methods) = .ok text ∧
      b.text names l = .ok text ∧
      text = Template.header ++ "\n" ++ body ++ "\x7d\n" ∧
      ∀ spare d reply e,
        (b.render names l).run.Runs spare d reply e ↔ reply = .ok text ∧ e = d) ∧
    (∀ l, OnlyDiskFaults (b.generate names l)) ∧
    (∀ selected, OnlyDiskFaults (b.generateLayers names selected)) ∧
    OnlyDiskFaults (b.check names) := by
  refine ⟨?_, b.onlyDiskFaults_generate names, fun _ => b.onlyDiskFaults_generateEach names _,
    b.onlyDiskFaults_checkEach names _⟩
  intro l
  have hfillable := b.fillable_methods names l
  have htext := b.text_eq_plainText names l
  obtain ⟨body, hframe⟩ := (b.sourceFile names l).plainText_frame
  exact ⟨hfillable, _, _, body, printMethods_of_fillable hfillable,
    (b.sourceFile names l).fill_plainText, htext, hframe, fun _ _ _ _ => b.runs_render names htext⟩

end Blueprint

end CrudLayers

import CrudLayers.Disk.Manual
import CrudLayers.Program.Basic

namespace CrudLayers

/-- The surroundings of a program: the disk, and all it has said and noted so far. -/
structure Scene where
  disk : Disk
  said : List String
  noted : List Event

namespace Scene

def ofDisk (d : Disk) : Scene :=
  ⟨d, [], []⟩

def change (s : Scene) : Except DiskFault Disk → Except DiskFault Unit × Scene
  | .ok d => (.ok (), { s with disk := d })
  | .error e => (.error e, s)

def answer (s : Scene) : (c : Call) → c.Reply × Scene
  | .makeDirectory path => s.change (s.disk.makeDirectory path)
  | .isDirectory path => (s.disk.isDirectory path, s)
  | .isFile path => (s.disk.isFile path, s)
  | .isPresent path => (s.disk.isPresent path, s)
  | .mode path => (s.disk.mode? path, s)
  | .read path => (s.disk.read path, s)
  | .makeTemporary directory =>
    match s.disk.makeTemporary directory with
    | .ok (path, d) => (.ok path, { s with disk := d })
    | .error e => (.error e, s)
  | .append path bytes =>
    match s.disk.append path bytes with
    | .ok d => (.ok bytes.length, { s with disk := d })
    | .error e => (.error e, s)
  | .sync _ => (.ok (), s)
  | .setMode path mode => s.change (s.disk.setMode path mode)
  | .rename source target => s.change (s.disk.rename source target)
  | .discard path =>
    match s.disk.remove path with
    | .ok d => ((), { s with disk := d })
    | .error _ => ((), s)
  | .say text => ((), { s with said := s.said ++ [text] })
  | .note event => ((), { s with noted := s.noted ++ [event] })

end Scene

namespace Program

def run {α : Type} : Program α → Scene → α × Scene
  | done a, s => (a, s)
  | ask c next, s => (next (s.answer c).1).run (s.answer c).2

theorem run_bind {α β : Type} (p : Program α) (f : α → Program β) (s : Scene) :
    (p.bind f).run s = (f (p.run s).1).run (p.run s).2 := by
  induction p generalizing s with
  | done a => rfl
  | ask c next ih => exact ih _ _

end Program

end CrudLayers

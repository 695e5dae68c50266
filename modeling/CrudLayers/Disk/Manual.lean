import CrudLayers.Disk.Calls

namespace CrudLayers.Disk

def makeLink (d : Disk) (path target : String) : Except DiskFault Disk :=
  d.make path (.link target)

def removeAll (d : Disk) (path : String) : Except DiskFault Disk := do
  match ← d.resolve false path with
  | .found place _ =>
    return { d with entries := d.entries.filter (fun e => !place.isPrefixOf e.1) }
  | .free _ _ => throw .noEntry

/-- Makes a file hold exactly some bytes; it is made if need be, and else keeps its mode. -/
def write (d : Disk) (path : String) (bytes : List UInt8) : Except DiskFault Disk := do
  match ← d.resolve true path with
  | .found place (.file _ mode) => return d.put place (.file bytes mode)
  | .found _ _ => throw .isDirectory
  | .free place slash =>
    if slash then throw .isDirectory else return d.put place (.file bytes Entry.defaultMode)

/-- Whether one place does not come after another: names go by their bytes, and a directory comes
before what is in it. -/
def before : Location → Location → Bool
  | [], _ => true
  | _ :: _, [] => false
  | a :: l, b :: m => if a = b then before l m else decide (a < b)

/-- Everything under a place, in order, each entry with its way from there. -/
def under (d : Disk) (place : Location) : List (Location × Entry) :=
  ((d.entries.filter (fun e => place.isPrefixOf e.1 && place != e.1)).map
    (fun e => (e.1.drop place.length, e.2))).mergeSort (fun a b => before a.1 b.1)

end CrudLayers.Disk

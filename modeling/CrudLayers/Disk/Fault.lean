namespace CrudLayers

inductive DiskFault where
  | noEntry
  | occupied
  | notDirectory
  | isDirectory
  | nameTooLong
  | linkLoop
  | busy
  | denied
  | readOnly
  | noSpace
  | device
  | nulInPath
  | notText
  | stuck
  /-- Any other fault of the system, by its number and what the system calls it. -/
  | other (number : Nat) (description : String)
deriving DecidableEq

namespace DiskFault

def message : DiskFault → String
  | noEntry => "No such file or directory (os error 2)"
  | occupied => "File exists (os error 17)"
  | notDirectory => "Not a directory (os error 20)"
  | isDirectory => "Is a directory (os error 21)"
  | nameTooLong => "File name too long (os error 36)"
  | linkLoop => "Too many levels of symbolic links (os error 40)"
  | busy => "Device or resource busy (os error 16)"
  | denied => "Permission denied (os error 13)"
  | readOnly => "Read-only file system (os error 30)"
  | noSpace => "No space left on device (os error 28)"
  | device => "Input/output error (os error 5)"
  | nulInPath => "file name contained an unexpected NUL byte"
  | notText => "stream did not contain valid UTF-8"
  | stuck => "failed to write whole buffer"
  | other number description => description ++ " (os error " ++ toString number ++ ")"

def ofNumber (number : Nat) (description : String) : DiskFault :=
  match number with
  | 2 => noEntry
  | 17 => occupied
  | 20 => notDirectory
  | 21 => isDirectory
  | 36 => nameTooLong
  | 40 => linkLoop
  | 16 => busy
  | 13 => denied
  | 30 => readOnly
  | 28 => noSpace
  | 5 => device
  | _ => other number description

end DiskFault

end CrudLayers

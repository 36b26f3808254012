/-!
The errors of the file system layer.
-/

namespace EdgeComputing.Fsal

inductive FsalErr
  | noError | perm | noent | io | nxio | nomem | access | fault | stillInUse | exist | xdev | notdir
  | isdir | inval | fbig | nospc | rofs | mlink | dquot | noData | nametoolong | notempty | stale
  | badhandle | badcookie | notsupp | toosmall | serverfault | badtype | delay | locked | fhexpired
  | shareDenied | symlink | attrnotsupp | badRange | notInit | alreadyInit | badInit | sec | noQuota
  | notOpened | deadlock | overflow | interrupt | blocked | timeout | fileOpen | unionNotsupp
  | inGrace | noAce | crossJunction | badname
deriving DecidableEq

end EdgeComputing.Fsal

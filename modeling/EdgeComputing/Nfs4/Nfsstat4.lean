import Mathlib.Tactic.TypeStar

/-!
The status codes and operation results shared by the NFSv4 operations, as `nfsv41.h` enumerates
them.
-/

namespace EdgeComputing.Nfs4

inductive Nfsstat4
  | ok | perm | noent | io | nxio | access | exist | xdev | notdir | isdir | inval | fbig | nospc
  | rofs | mlink | nametoolong | notempty | dquot | stale | badhandle | badCookie | notsupp
  | toosmall | serverfault | badtype | delay | same | denied | expired | locked | grace
  | fhexpired | shareDenied | wrongsec | clidInuse | resource | moved | nofilehandle
  | minorVersMismatch | staleClientid | staleStateid | oldStateid | badStateid | badSeqid
  | notSame | lockRange | symlink | restorefh | leaseMoved | attrnotsupp | noGrace | reclaimBad
  | reclaimConflict | badxdr | locksHeld | openmode | badowner | badchar | badname | badRange
  | lockNotsupp | opIllegal | deadlock | fileOpen | adminRevoked | cbPathDown | badiomode
  | badlayout | badSessionDigest | badsession | badslot | completeAlready | connNotBoundToSession
  | delegAlreadyWanted | backChanBusy | layouttrylater | layoutunavailable | nomatchingLayout
  | recallconflict | unknownLayouttype | seqMisordered | sequencePos | reqTooBig | repTooBig
  | repTooBigToCache | retryUncachedRep | unsafeCompound | tooManyOps | opNotInSession
  | hashAlgUnsupp | clientidBusy | pnfsIoHole | seqFalseRetry | badHighSlot | deadsession
  | encrAlgUnsupp | pnfsNoLayout | notOnlyOp | wrongCred | wrongType | dirdelegUnavail
  | rejectDeleg | returnconflict | delegRevoked | partnerNotsupp | partnerNoAuth | unionNotsupp
  | offloadDenied | wrongLfs | badlabel | offloadNoReqs | replay
deriving DecidableEq

/-- `enum nfs_req_result`, without the results no function modelled here returns. -/
inductive ReqResult
  | ok | error | replay
deriving DecidableEq

end EdgeComputing.Nfs4

import EdgeComputing.DeviceSdk.AutoEvents
import EdgeComputing.DeviceSdk.CommandLine
import EdgeComputing.DeviceSdk.DeviceChanges
import EdgeComputing.DeviceSdk.Overrides
import EdgeComputing.DeviceSdk.RestServer
import EdgeComputing.DeviceSdk.Transform
import EdgeComputing.DeviceSdk.Watchers
import EdgeComputing.Fsal.AclCopy
import EdgeComputing.Fsal.FsidOperations
import EdgeComputing.Fsal.MountClaims
import EdgeComputing.Fsal.OpContextBalance
import EdgeComputing.Fsal.PosixRoundTrip
import EdgeComputing.Fsal.ShareReservations
import EdgeComputing.Hashtable.FiniteMap
import EdgeComputing.Idmapper.UserCacheSound
import EdgeComputing.MainNfsd.ReaperSafety
import EdgeComputing.Mdcache.PlaceWellFormed
import EdgeComputing.Nfs4.ClientIdConfirmation
import EdgeComputing.Nfs4.ClientIdReferences
import EdgeComputing.Nfs4.FattrCmp
import EdgeComputing.Nfs4.FattrSafety
import EdgeComputing.Nfs4.LiveClients
import EdgeComputing.Nfs4.OwnerAtMostOnce
import EdgeComputing.Nfs4.PathFilter
import EdgeComputing.Nfs4.PseudoPrune
import EdgeComputing.Nfs4.ShareModes
import EdgeComputing.Nfs4.SlotReplay
import EdgeComputing.Nfs4.StateKind
import EdgeComputing.Nfs4.StateidSeqid
import EdgeComputing.Rpcal.DrcReferences
import EdgeComputing.Rpcal.DupreqExclusion
import EdgeComputing.Sal.GraceReferences
import EdgeComputing.Sal.LockTest
import EdgeComputing.Sal.RecoveryNames
import EdgeComputing.Sal.RecoveryRestarts
import EdgeComputing.Sal.StateIndexes
import EdgeComputing.Sal.StrandedWaiters
import EdgeComputing.Support.ExportLookup
import EdgeComputing.Support.GraceMembership
import EdgeComputing.Support.GracePeriods

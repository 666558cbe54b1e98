import Nfs4Compound.Lib.Transition
import Nfs4Compound.Lib.Xdr
import Nfs4Compound.Lib.Reader
import Nfs4Compound.Lib.Prog
import Nfs4Compound.Lib.Ghost
import Nfs4Compound.Lib.CText
import Nfs4Compound.Lib.Delivery
import Nfs4Compound.Rpc.ProcSizes
import Nfs4Compound.Rpc.Request
import Nfs4Compound.Rpc.Reply
import Nfs4Compound.Rpc.Server
import Nfs4Compound.Rpc.Calls
import Nfs4Compound.Rpc.Handles
import Nfs4Compound.Rpc.Export
import Nfs4Compound.Vfs.Dcache
import Nfs4Compound.Vfs.Nameidata
import Nfs4Compound.Vfs.Component
import Nfs4Compound.Vfs.Chain
import Nfs4Compound.Vfs.MountCounts
import Nfs4Compound.Vfs.PathWalk
import Nfs4Compound.Vfs.Invariant
import Nfs4Compound.Vfs.ChainAnswers
import Nfs4Compound.Vfs.Open
import Nfs4Compound.Vfs.Mountpoint
import Nfs4Compound.Vfs.SearchPermission
import Nfs4Compound.Vfs.Restarts
import Nfs4Compound.Vfs.CurrentTree
import Nfs4Compound.Vfs.PlainTree
import Nfs4Compound.Vfs.Wire
import Nfs4Compound.Vfs.Parents
import Nfs4Compound.Vfs.ChainEnds
import Nfs4Compound.Vfs.Boundaries
import Nfs4Compound.Vfs.FollowLink
import Nfs4Compound.Attr.Cache
import Nfs4Compound.Attr.Stat
import Nfs4Compound.Tar.Archive
import Nfs4Compound.Tar.Drivers
import Nfs4Compound.Tar.Ends
import Nfs4Compound.Tar.Ksaltuk
import Nfs4Compound.Tar.Pbelousov
import Nfs4Compound.Tar.Aboyaritsev
import Nfs4Compound.Tar.Readdir
import Nfs4Compound.Lib.Disk
import Nfs4Compound.Lib.Attempts
import Nfs4Compound.Tar.Reads
import Nfs4Compound.Proofs.TarReads
import Nfs4Compound.Tar.Fields
import Nfs4Compound.Proofs.TarFields
import Nfs4Compound.Proofs.TarPositions
import Nfs4Compound.Tar.Paths
import Nfs4Compound.Tar.Pages
import Nfs4Compound.Proofs.TarPaths
import Nfs4Compound.Proofs.TarPages
import Nfs4Compound.Proofs.TarDevices
import Nfs4Compound.Proofs.ProcSizes
import Nfs4Compound.Proofs.RequestFits
import Nfs4Compound.Proofs.RequestRoundTrip
import Nfs4Compound.Proofs.AttrDecode
import Nfs4Compound.Proofs.OpDecode
import Nfs4Compound.Proofs.ChainReply
import Nfs4Compound.Proofs.Calls
import Nfs4Compound.Proofs.Handles
import Nfs4Compound.Proofs.Export
import Nfs4Compound.Proofs.HeapShape
import Nfs4Compound.Proofs.WalkSteps
import Nfs4Compound.Proofs.ChainAnswers
import Nfs4Compound.Proofs.ChainEnds
import Nfs4Compound.Proofs.Boundaries
import Nfs4Compound.Proofs.FollowLink
import Nfs4Compound.Proofs.ChainSteps
import Nfs4Compound.Proofs.WalkChain
import Nfs4Compound.Proofs.MountCounts
import Nfs4Compound.Proofs.WalkComponent
import Nfs4Compound.Proofs.ChainInvariant
import Nfs4Compound.Proofs.ChainOrder
import Nfs4Compound.Proofs.OpenOrder
import Nfs4Compound.Proofs.ChainRuns
import Nfs4Compound.Proofs.PlainWalk
import Nfs4Compound.Proofs.PlainLookup
import Nfs4Compound.Proofs.Wire
import Nfs4Compound.Proofs.Parents
import Nfs4Compound.Proofs.CurrentTree
import Nfs4Compound.Proofs.SearchPermission
import Nfs4Compound.Proofs.Steady
import Nfs4Compound.Proofs.Pathname
import Nfs4Compound.Proofs.CachedLink
import Nfs4Compound.Proofs.Restarts
import Nfs4Compound.Proofs.StatFresh
import Nfs4Compound.Proofs.TarHeaders
import Nfs4Compound.Proofs.TarScan
import Nfs4Compound.Proofs.TarRounds
import Nfs4Compound.Proofs.TarEnds
import Nfs4Compound.Proofs.TarKsaltuk
import Nfs4Compound.Proofs.TarNames
import Nfs4Compound.Proofs.TarSeek
import Nfs4Compound.Proofs.TarChildren
import Nfs4Compound.Proofs.TarAboyaritsev
import Nfs4Compound.Proofs.TarReaddir
import Nfs4Compound.Lib.SearchTree
import Nfs4Compound.Lib.History
import Nfs4Compound.Lib.Lock
import Nfs4Compound.Lib.Tally
import Nfs4Compound.Access.Cache
import Nfs4Compound.Access.Calls
import Nfs4Compound.Access.Invariant
import Nfs4Compound.Proofs.AccessInodes
import Nfs4Compound.Proofs.AccessSteps
import Nfs4Compound.Proofs.AccessLocks
import Nfs4Compound.Proofs.AccessFlow
import Nfs4Compound.Proofs.AccessShape
import Nfs4Compound.Access.Answers
import Nfs4Compound.Proofs.AccessAnswers
import Nfs4Compound.Access.Returns
import Nfs4Compound.Proofs.AccessReturns

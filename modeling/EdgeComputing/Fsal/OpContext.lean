import EdgeComputing.Library.Machine
import EdgeComputing.Support.ExportPerms

/-!
The request contexts of one thread. A context owns a reference to each object it names;
`init_op_context` stacks a context on the one below it, and a saved export context takes over the
references of its origin. The counts are integers, so that a put too many shows.
-/

namespace EdgeComputing.Fsal

open Library Support

inductive Counted where
  | gshExport (exportId : Nat)
  | pnfsDs (idServers : Nat)
  | refstr (addr : Nat)
  deriving DecidableEq

abbrev RefCounts := Counted → Int

namespace RefCounts

def get (counts : RefCounts) (obj : Counted) : RefCounts :=
  fun other => if other = obj then counts other + 1 else counts other

def put (counts : RefCounts) (obj : Counted) : RefCounts :=
  fun other => if other = obj then counts other - 1 else counts other

def putIf (counts : RefCounts) : Option Counted → RefCounts
  | none => counts
  | some obj => counts.put obj

end RefCounts

structure FsalExport where
  exportId : Nat
  fsal : Nat
  deriving DecidableEq

structure CtxExport where
  exportId : Nat
  fullpath : Option Nat
  pseudopath : Option Nat
  fsalExport : Option FsalExport
  deriving DecidableEq

def CtxExport.counted (exp : CtxExport) : Counted := .gshExport exp.exportId

structure PnfsDs where
  idServers : Nat
  mdsExport : Option CtxExport
  mdsFsalExport : Option FsalExport
  deriving DecidableEq

def PnfsDs.counted (pds : PnfsDs) : Counted := .pnfsDs pds.idServers

/-- `struct req_op_context`, as far as these functions use it. An active context always has its two
strings. -/
structure ReqOpContext where
  ctxExport : Option CtxExport
  ctxFullpath : Nat
  ctxPseudopath : Nat
  fsalExport : Option FsalExport
  fsalModule : Option Nat
  ctxPnfsDs : Option PnfsDs
  exportPerms : ExportPerms
  deriving DecidableEq

structure SavedExportContext where
  savedExport : Option CtxExport
  savedFullpath : Nat
  savedPseudopath : Nat
  savedFsalExport : Option FsalExport
  savedFsalModule : Option Nat
  savedPnfsDs : Option PnfsDs
  savedExportPerms : ExportPerms
  deriving DecidableEq

def rootOpExportOptions : BitVec 32 := 0x0771F1E0#32

def rootOpExportSet : BitVec 32 := 0x0771F1FF#32

section Functions

variable (noExport : Nat)

/-- `set_op_context_export_fsal_no_release`; `savedOpCtx` is the context below. -/
def setOpContextExportFsalNoRelease (savedOpCtx : Option ReqOpContext) (exp : Option CtxExport)
    (fsalExp : Option FsalExport) (pds : Option PnfsDs) (discardRefstr : Bool) (counts : RefCounts)
    (ctx : ReqOpContext) : RefCounts × ReqOpContext :=
  let counts := if discardRefstr then
      (counts.put (.refstr ctx.ctxFullpath)).put (.refstr ctx.ctxPseudopath)
    else counts
  let fullpath := (exp.bind (·.fullpath)).getD noExport
  let pseudopath := (exp.bind (·.pseudopath)).getD noExport
  let fsalModule := match fsalExp with
    | some fsalExp => some fsalExp.fsal
    | none => ctx.fsalModule.or (savedOpCtx.bind (·.fsalModule))
  ((counts.get (.refstr fullpath)).get (.refstr pseudopath),
    { ctx with
      ctxExport := exp, fsalExport := fsalExp, ctxPnfsDs := pds
      ctxFullpath := fullpath, ctxPseudopath := pseudopath, fsalModule := fsalModule })

def putExportAndDs (counts : RefCounts) (ctx : ReqOpContext) : RefCounts :=
  (counts.putIf (ctx.ctxExport.map (·.counted))).putIf (ctx.ctxPnfsDs.map (·.counted))

def setOpContextExportFsal (savedOpCtx : Option ReqOpContext) (exp : Option CtxExport)
    (fsalExp : Option FsalExport) (counts : RefCounts) (ctx : ReqOpContext) :
    RefCounts × ReqOpContext :=
  setOpContextExportFsalNoRelease noExport savedOpCtx exp fsalExp none true
    (putExportAndDs counts ctx) ctx

def setOpContextPnfsDs (savedOpCtx : Option ReqOpContext) (pds : PnfsDs) (counts : RefCounts)
    (ctx : ReqOpContext) : RefCounts × ReqOpContext :=
  setOpContextExportFsalNoRelease noExport savedOpCtx pds.mdsExport pds.mdsFsalExport (some pds)
    true (putExportAndDs counts ctx) ctx

/-- The pointer to the data server stays. -/
def clearOpContextExportImpl (counts : RefCounts) (ctx : ReqOpContext) : RefCounts × ReqOpContext :=
  let counts := putExportAndDs counts ctx
  ((counts.put (.refstr ctx.ctxFullpath)).put (.refstr ctx.ctxPseudopath),
    { ctx with ctxExport := none, fsalExport := none })

def clearOpContextExport (counts : RefCounts) (ctx : ReqOpContext) : RefCounts × ReqOpContext :=
  let cleared := clearOpContextExportImpl counts ctx
  ((cleared.1.get (.refstr noExport)).get (.refstr noExport),
    { cleared.2 with ctxFullpath := noExport, ctxPseudopath := noExport })

def saveOpContextExport (ctx : ReqOpContext) : SavedExportContext where
  savedExport := ctx.ctxExport
  savedFullpath := ctx.ctxFullpath
  savedPseudopath := ctx.ctxPseudopath
  savedFsalExport := ctx.fsalExport
  savedFsalModule := ctx.fsalModule
  savedPnfsDs := ctx.ctxPnfsDs
  savedExportPerms := ctx.exportPerms

def saveOpContextExportAndSetExport (savedOpCtx : Option ReqOpContext) (exp : CtxExport)
    (counts : RefCounts) (ctx : ReqOpContext) : SavedExportContext × RefCounts × ReqOpContext :=
  (saveOpContextExport ctx,
    setOpContextExportFsalNoRelease noExport savedOpCtx (some exp) exp.fsalExport none false
      counts ctx)

def saveOpContextExportAndClear (ctx : ReqOpContext) : SavedExportContext × ReqOpContext :=
  (saveOpContextExport ctx, { ctx with ctxExport := none, fsalExport := none, ctxPnfsDs := none })

def restoreOpContextExport (saved : SavedExportContext) (counts : RefCounts) (ctx : ReqOpContext) :
    RefCounts × ReqOpContext :=
  let cleared := clearOpContextExport noExport counts ctx
  (cleared.1,
    { cleared.2 with
      ctxExport := saved.savedExport, ctxFullpath := saved.savedFullpath
      ctxPseudopath := saved.savedPseudopath, fsalExport := saved.savedFsalExport
      fsalModule := saved.savedFsalModule, ctxPnfsDs := saved.savedPnfsDs
      exportPerms := saved.savedExportPerms })

/-- It puts the data server of the current context; `none` is a null pointer followed. -/
def discardOpContextExport (saved : SavedExportContext) (counts : RefCounts) (ctx : ReqOpContext) :
    Option RefCounts :=
  let counts := counts.putIf (saved.savedExport.map (·.counted))
  let counts := match saved.savedPnfsDs, ctx.ctxPnfsDs with
    | none, _ => some counts
    | some _, some pds => some (counts.put pds.counted)
    | some _, none => none
  counts.map fun counts =>
    (counts.put (.refstr saved.savedFullpath)).put (.refstr saved.savedPseudopath)

def initOpContext (opCtx : Option ReqOpContext) (exp : Option CtxExport)
    (fsalExp : Option FsalExport) (counts : RefCounts) : RefCounts × ReqOpContext :=
  let zeroed : ReqOpContext := ⟨none, noExport, noExport, none, none, none, ExportPerms.zero⟩
  let set := setOpContextExportFsalNoRelease noExport opCtx exp fsalExp none false counts zeroed
  let perms := { set.2.exportPerms with set := rootOpExportSet, options := rootOpExportOptions }
  (set.1, { set.2 with exportPerms := perms })

def releaseOpContext (counts : RefCounts) (ctx : ReqOpContext) : RefCounts :=
  (clearOpContextExportImpl counts ctx).1

end Functions

/-- A live context and the export contexts saved from it that are still pending, the last one first.
-/
structure Frame where
  ctx : ReqOpContext
  saved : List SavedExportContext
  deriving DecidableEq

structure Contexts where
  counts : RefCounts
  frames : List Frame

/-- A thread between two calls, or after the dereference of a null pointer. -/
inductive CtxState where
  | live (contexts : Contexts)
  | faulted

inductive CtxOp where
  | init (exp : Option CtxExport) (fsalExp : Option FsalExport)
  | setExportFsal (exp : Option CtxExport) (fsalExp : Option FsalExport)
  | setPnfsDs (pds : PnfsDs)
  | clear
  | saveAndSet (exp : CtxExport)
  | saveAndClear
  | restore
  | discard
  | release
  deriving DecidableEq

def references (exp : Option CtxExport) (pds : Option PnfsDs) : List Counted :=
  (exp.map (·.counted)).toList ++ (pds.map (·.counted)).toList

def handOver (counts : RefCounts) (objs : List Counted) : RefCounts :=
  objs.foldl RefCounts.get counts

/-- One call of a properly nested sequence: a restore or a discard is for the export context saved
last, and a context is released when none is left of those saved from it. -/
def ctxStep (noExport : Nat) : CtxState → CtxOp → Option CtxState
  | .faulted, _ => none
  | .live ⟨counts, frames⟩, .init exp fsalExp =>
    let r := initOpContext noExport (frames.head?.map (·.ctx)) exp fsalExp
      (handOver counts (references exp none))
    some (.live ⟨r.1, ⟨r.2, []⟩ :: frames⟩)
  | .live ⟨_, []⟩, _ => none
  | .live ⟨counts, ⟨ctx, saved⟩ :: below⟩, op =>
    let savedOpCtx := below.head?.map (·.ctx)
    match op, saved with
    | .init _ _, _ => none
    | .setExportFsal exp fsalExp, _ =>
      let r := setOpContextExportFsal noExport savedOpCtx exp fsalExp
        (handOver counts (references exp none)) ctx
      some (.live ⟨r.1, ⟨r.2, saved⟩ :: below⟩)
    | .setPnfsDs pds, _ =>
      let r := setOpContextPnfsDs noExport savedOpCtx pds
        (handOver counts (references pds.mdsExport (some pds))) ctx
      some (.live ⟨r.1, ⟨r.2, saved⟩ :: below⟩)
    | .clear, _ =>
      let r := clearOpContextExport noExport counts ctx
      some (.live ⟨r.1, ⟨r.2, saved⟩ :: below⟩)
    | .saveAndSet exp, _ =>
      let r := saveOpContextExportAndSetExport noExport savedOpCtx exp
        (handOver counts (references (some exp) none)) ctx
      some (.live ⟨r.2.1, ⟨r.2.2, r.1 :: saved⟩ :: below⟩)
    | .saveAndClear, _ =>
      let r := saveOpContextExportAndClear ctx
      some (.live ⟨counts, ⟨r.2, r.1 :: saved⟩ :: below⟩)
    | .restore, last :: saved =>
      let r := restoreOpContextExport noExport last counts ctx
      some (.live ⟨r.1, ⟨r.2, saved⟩ :: below⟩)
    | .discard, last :: saved =>
      match discardOpContextExport last counts ctx with
      | none => some .faulted
      | some counts => some (.live ⟨counts, ⟨ctx, saved⟩ :: below⟩)
    | .release, [] => some (.live ⟨releaseOpContext counts ctx, below⟩)
    | .restore, [] => none
    | .discard, [] => none
    | .release, _ :: _ => none

def ctxMachine (noExport : Nat) (initial : RefCounts) : Machine CtxState CtxOp where
  init := fun s => s = .live ⟨initial, []⟩
  step := ctxStep noExport

end EdgeComputing.Fsal

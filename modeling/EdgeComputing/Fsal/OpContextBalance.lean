import EdgeComputing.Fsal.OpContext

/-!
The reference counts against the contexts that name their objects. The surplus of an object is its
count beyond the initial value and the contexts that name it; every call changes it by its drift,
which is read off the state before.
-/

namespace EdgeComputing.Fsal

open List Option Library Counted ReqOpContext Contexts

def ReqOpContext.names (ctx : ReqOpContext) : List Counted :=
  references ctx.ctxExport ctx.ctxPnfsDs ++ [.refstr ctx.ctxFullpath, .refstr ctx.ctxPseudopath]

def SavedExportContext.names (saved : SavedExportContext) : List Counted :=
  references saved.savedExport saved.savedPnfsDs ++
    [.refstr saved.savedFullpath, .refstr saved.savedPseudopath]

def Frame.names (frame : Frame) : List Counted :=
  frame.ctx.names ++ frame.saved.flatMap SavedExportContext.names

def Contexts.holders (contexts : Contexts) (obj : Counted) : Nat :=
  (contexts.frames.flatMap Frame.names).count obj

def Balanced (initial : RefCounts) : CtxState → Prop
  | .live contexts => ∀ obj, contexts.counts obj = initial obj + contexts.holders obj
  | .faulted => False

section

variable (counts : RefCounts)
include counts

theorem get_apply (obj other : Counted) :
    counts.get obj other = counts other + [obj].count other := by
  unfold RefCounts.get
  split
  next heq => simp [heq]
  next hne => simp [Ne.symm hne]

theorem put_apply (obj other : Counted) :
    counts.put obj other = counts other - [obj].count other := by
  unfold RefCounts.put
  split
  next heq => simp [heq]
  next hne => simp [Ne.symm hne]

theorem putIf_apply (obj : Option Counted) (other : Counted) :
    counts.putIf obj other = counts other - obj.toList.count other := by
  cases obj with
  | none => simp [RefCounts.putIf]
  | some obj => exact put_apply counts obj other

theorem handOver_apply (objs : List Counted) (other : Counted) :
    handOver counts objs other = counts other + objs.count other := by
  induction objs generalizing counts with
  | nil => simp [handOver]
  | cons obj rest ih =>
    have hrest := ih (counts.get obj)
    have hcons : (obj :: rest).count other = [obj].count other + rest.count other := by
      rw [← singleton_append, count_append]
    rw [handOver, foldl_cons, ← handOver, hrest, get_apply, hcons]
    omega

theorem putExportAndDs_apply (ctx : ReqOpContext) (obj : Counted) :
    putExportAndDs counts ctx obj =
      counts obj - (references ctx.ctxExport ctx.ctxPnfsDs).count obj := by
  simp only [putExportAndDs, putIf_apply, references, count_append]
  omega

end

theorem count_pair (a b obj : Counted) : [a, b].count obj = [a].count obj + [b].count obj := by
  rw [← singleton_append, count_append]

theorem ReqOpContext.count_names (ctx : ReqOpContext) (obj : Counted) :
    ctx.names.count obj = (references ctx.ctxExport ctx.ctxPnfsDs).count obj +
      [refstr ctx.ctxFullpath].count obj + [refstr ctx.ctxPseudopath].count obj := by
  rw [names, count_append, count_pair, Nat.add_assoc]

theorem SavedExportContext.count_names (saved : SavedExportContext) (obj : Counted) :
    saved.names.count obj = (references saved.savedExport saved.savedPnfsDs).count obj +
      [refstr saved.savedFullpath].count obj +
      [refstr saved.savedPseudopath].count obj := by
  rw [names, count_append, count_pair, Nat.add_assoc]

def net (r : RefCounts × ReqOpContext) (obj : Counted) : Int :=
  r.1 obj - r.2.names.count obj

section Functions

variable {noExport : Nat} {below : Option ReqOpContext} {exp : Option CtxExport}
  {fsalExp : Option FsalExport} {counts : RefCounts} {ctx : ReqOpContext} (obj : Counted)

theorem net_noRelease (pds : Option PnfsDs) (discardRefstr : Bool) :
    net (setOpContextExportFsalNoRelease noExport below exp fsalExp pds discardRefstr counts ctx)
        obj =
      counts obj - (references exp pds).count obj -
        if discardRefstr then ([refstr ctx.ctxFullpath].count obj : Int) +
          [refstr ctx.ctxPseudopath].count obj else 0 := by
  simp only [net, setOpContextExportFsalNoRelease, count_names, get_apply]
  cases discardRefstr with
  | true =>
    simp only [if_true, put_apply]
    omega
  | false =>
    simp only [Bool.false_eq_true, if_false]
    omega

theorem net_initOpContext :
    net (initOpContext noExport below exp fsalExp counts) obj =
      counts obj - (references exp none).count obj := by
  have hset : net (setOpContextExportFsalNoRelease noExport below exp fsalExp none false counts
      ⟨none, noExport, noExport, none, none, none, Support.ExportPerms.zero⟩) obj = _ :=
    net_noRelease obj none false
  exact hset.trans (Int.sub_zero _)

theorem net_replaced (pds : Option PnfsDs) :
    net (setOpContextExportFsalNoRelease noExport below exp fsalExp pds true
      (putExportAndDs counts ctx) ctx) obj = net (counts, ctx) obj - (references exp pds).count obj := by
  rw [net_noRelease, putExportAndDs_apply]
  simp only [net, count_names, if_true]
  omega

theorem clearOpContextExportImpl_apply (counts : RefCounts) (ctx : ReqOpContext) (obj : Counted) :
    (clearOpContextExportImpl counts ctx).1 obj = net (counts, ctx) obj := by
  simp only [clearOpContextExportImpl, put_apply, putExportAndDs_apply, net,
    count_names]
  omega

theorem net_clearOpContextExport :
    net (clearOpContextExport noExport counts ctx) obj =
      net (counts, ctx) obj - (references none ctx.ctxPnfsDs).count obj := by
  rw [← clearOpContextExportImpl_apply counts ctx]
  simp only [net, clearOpContextExport, count_names, get_apply]
  have hnames : references (clearOpContextExportImpl counts ctx).2.ctxExport
      (clearOpContextExportImpl counts ctx).2.ctxPnfsDs = references none ctx.ctxPnfsDs := rfl
  rw [hnames]
  omega

theorem net_saveOpContextExportAndSetExport (exp : CtxExport) :
    net (saveOpContextExportAndSetExport noExport below exp counts ctx).2 obj =
      counts obj - (references (some exp) none).count obj :=
  (net_noRelease obj none false).trans (Int.sub_zero _)

theorem net_saveOpContextExportAndClear :
    net (counts, (saveOpContextExportAndClear ctx).2) obj =
      counts obj - [refstr ctx.ctxFullpath, .refstr ctx.ctxPseudopath].count obj := rfl

theorem net_restoreOpContextExport (saved : SavedExportContext) :
    net (restoreOpContextExport noExport saved counts ctx) obj =
      net (counts, ctx) obj - saved.names.count obj +
        [refstr noExport, .refstr noExport].count obj := by
  rw [← clearOpContextExportImpl_apply counts ctx, SavedExportContext.count_names, count_pair]
  simp only [net, restoreOpContextExport, clearOpContextExport, count_names, get_apply]
  omega

theorem discardOpContextExport_cases {saved : SavedExportContext} {after : RefCounts}
    (h : discardOpContextExport saved counts ctx = some after) :
    (saved.savedPnfsDs = none ∧ after obj = counts obj - saved.names.count obj) ∨
      ∃ put pds, saved.savedPnfsDs = some put ∧ ctx.ctxPnfsDs = some pds ∧
        after obj = counts obj - saved.names.count obj + [put.counted].count obj -
          [pds.counted].count obj := by
  simp only [discardOpContextExport, map_eq_some_iff] at h
  obtain ⟨mid, hmid, rfl⟩ := h
  rw [SavedExportContext.count_names, references, count_append]
  split at hmid
  next hsaved =>
    cases hmid
    refine .inl ⟨hsaved, ?_⟩
    simp only [put_apply, putIf_apply, hsaved, map_none, toList_none, count_nil]
    omega
  next put pds hsaved hctx =>
    cases hmid
    refine .inr ⟨put, pds, hsaved, hctx, ?_⟩
    simp only [put_apply, putIf_apply, hsaved, map_some, toList_some]
    omega
  next => cases hmid

end Functions

def surplus (initial : RefCounts) (contexts : Contexts) (obj : Counted) : Int :=
  contexts.counts obj - initial obj - contexts.holders obj

theorem surplus_cons (initial : RefCounts) (r : RefCounts × ReqOpContext)
    (saved : List SavedExportContext) (below : List Frame) (obj : Counted) :
    surplus initial ⟨r.1, ⟨r.2, saved⟩ :: below⟩ obj =
      net r obj - initial obj - (saved.flatMap SavedExportContext.names).count obj -
        (below.flatMap Frame.names).count obj := by
  simp only [surplus, holders, flatMap_cons, Frame.names, count_append, net]
  omega

def drift (noExport : Nat) (contexts : Contexts) (op : CtxOp) (obj : Counted) : Int :=
  match contexts.frames, op with
  | ⟨ctx, _⟩ :: _, .clear => -(references none ctx.ctxPnfsDs).count obj
  | ⟨ctx, _⟩ :: _, .saveAndClear =>
    -[refstr ctx.ctxFullpath, .refstr ctx.ctxPseudopath].count obj
  | _ :: _, .restore => [refstr noExport, .refstr noExport].count obj
  | ⟨ctx, last :: _⟩ :: _, .discard =>
    if last.savedPnfsDs = none then 0
    else (references none last.savedPnfsDs).count obj - (references none ctx.ctxPnfsDs).count obj
  | _, _ => 0

variable {noExport : Nat}

theorem surplus_init {initial counts : RefCounts} {frames : List Frame} {exp : Option CtxExport}
    {fsalExp : Option FsalExport} {after : Contexts}
    (h : ctxStep noExport (.live ⟨counts, frames⟩) (.init exp fsalExp) = some (.live after))
    (obj : Counted) : surplus initial after obj = surplus initial ⟨counts, frames⟩ obj := by
  cases h
  rw [surplus_cons, net_initOpContext, handOver_apply]
  simp only [surplus, holders, flatMap_nil, count_nil]
  omega

variable {before after : Contexts} {op : CtxOp} {initial : RefCounts}

theorem surplus_step (h : ctxStep noExport (.live before) op = some (.live after)) (obj : Counted) :
    surplus initial after obj = surplus initial before obj + drift noExport before op obj := by
  obtain ⟨counts, _ | ⟨⟨ctx, saved⟩, below⟩⟩ := before
  · cases op with
    | init exp fsalExp => exact (surplus_init h obj).trans (Int.add_zero _).symm
    | _ => cases h
  · have hbefore : surplus initial ⟨counts, ⟨ctx, saved⟩ :: below⟩ obj = _ :=
      surplus_cons initial (counts, ctx) saved below obj
    cases op with
    | init exp fsalExp => exact (surplus_init h obj).trans (Int.add_zero _).symm
    | setExportFsal exp fsalExp =>
      cases h
      rw [surplus_cons, setOpContextExportFsal, net_replaced, hbefore]
      simp only [net, handOver_apply, drift]
      omega
    | setPnfsDs pds =>
      cases h
      rw [surplus_cons, setOpContextPnfsDs, net_replaced, hbefore]
      simp only [net, handOver_apply, drift]
      omega
    | clear =>
      cases h
      rw [surplus_cons, net_clearOpContextExport, hbefore]
      simp only [drift]
      omega
    | saveAndSet exp =>
      cases h
      have hsaved : (saveOpContextExport ctx).names = ctx.names := rfl
      rw [surplus_cons, net_saveOpContextExportAndSetExport, hbefore, flatMap_cons,
        count_append, saveOpContextExportAndSetExport, hsaved]
      simp only [net, handOver_apply, drift]
      omega
    | saveAndClear =>
      cases h
      have hafter := surplus_cons initial (counts, (saveOpContextExportAndClear ctx).2)
        ((saveOpContextExportAndClear ctx).1 :: saved) below obj
      have hsaved : (saveOpContextExportAndClear ctx).1.names = ctx.names := rfl
      rw [net_saveOpContextExportAndClear, flatMap_cons, count_append, hsaved] at hafter
      rw [hbefore]
      simp only [net, drift] at hafter ⊢
      omega
    | restore =>
      cases saved with
      | nil => cases h
      | cons last saved =>
        cases h
        rw [surplus_cons, net_restoreOpContextExport, hbefore, flatMap_cons, count_append]
        simp only [drift]
        omega
    | discard =>
      cases saved with
      | nil => cases h
      | cons last saved =>
        rw [flatMap_cons, count_append] at hbefore
        simp only [ctxStep] at h
        split at h
        next => cases h
        next counts' hcounts =>
          cases h
          have hafter := surplus_cons initial (counts', ctx) saved below obj
          rw [hafter, hbefore]
          obtain ⟨hnone, happly⟩ | ⟨lastPds, pds, hlast, hctx, happly⟩ :=
            discardOpContextExport_cases obj hcounts
          · simp only [net, drift, hnone, if_true, happly]
            omega
          · simp only [net, drift, hlast, hctx, reduceCtorEq, if_false, references,
              map_none, map_some, toList_none, toList_some,
              nil_append, happly]
            omega
    | release =>
      cases saved with
      | nil =>
        cases h
        rw [hbefore]
        simp only [surplus, holders, releaseOpContext, clearOpContextExportImpl_apply,
          drift, flatMap_nil, count_nil]
        omega
      | cons last saved => cases h

theorem balanced_live_iff {contexts : Contexts} :
    Balanced initial (.live contexts) ↔ ∀ obj, surplus initial contexts obj = 0 := by
  constructor
  · intro hbal obj
    have hobj := hbal obj
    simp only [surplus]
    omega
  · intro hzero obj
    have hobj := hzero obj
    simp only [surplus] at hobj
    omega

/-- The calls that keep the balance, by the state before: no restore, no save and clear, a clear
only without a data server, a discard only of a saved context without a data server or with that of
the current context. -/
def keepsBalance : CtxState → CtxOp → Bool
  | .live ⟨_, ⟨ctx, _⟩ :: _⟩, .clear => ctx.ctxPnfsDs.isNone
  | .live ⟨_, ⟨ctx, last :: _⟩ :: _⟩, .discard =>
    last.savedPnfsDs.isNone ||
      ctx.ctxPnfsDs.map PnfsDs.counted == last.savedPnfsDs.map PnfsDs.counted
  | _, .saveAndClear => false
  | _, .restore => false
  | _, _ => true

theorem count_references_none_eq_zero_iff (pds : Option PnfsDs) :
    (∀ obj, (references none pds).count obj = 0) ↔ pds = none := by
  cases pds with
  | none => simp [references]
  | some pds =>
    simp only [reduceCtorEq, iff_false, not_forall]
    exact ⟨pds.counted, by simp [references]⟩

theorem count_references_none_eq_iff (a b : Option PnfsDs) :
    (∀ obj, (references none a).count obj = (references none b).count obj) ↔
      a.map PnfsDs.counted = b.map PnfsDs.counted := by
  constructor
  · intro hcount
    cases a with
    | none =>
      have hnone := (count_references_none_eq_zero_iff b).1 fun obj => (hcount obj).symm
      rw [hnone]
    | some a =>
      have hmem := hcount a.counted
      cases b with
      | none => simp [references] at hmem
      | some b =>
        by_cases heq : b.counted = a.counted
        · simp [heq]
        · simp [references, heq] at hmem
  · intro heq obj
    simp only [references, heq]

theorem drift_eq_zero_iff (h : ctxStep noExport (.live before) op = some (.live after)) :
    (∀ obj, drift noExport before op obj = 0) ↔ keepsBalance (.live before) op = true := by
  obtain ⟨counts, _ | ⟨⟨ctx, saved⟩, below⟩⟩ := before
  · cases op with
    | init exp fsalExp => simp [drift, keepsBalance]
    | _ => cases h
  · cases op with
    | clear =>
      simp only [drift, keepsBalance, Int.neg_eq_zero, Int.natCast_eq_zero,
        count_references_none_eq_zero_iff, isNone_iff_eq_none]
    | saveAndClear =>
      simp only [keepsBalance, Bool.false_eq_true, iff_false, not_forall]
      exact ⟨.refstr ctx.ctxFullpath, by simp [drift, count_cons]; omega⟩
    | restore =>
      simp only [keepsBalance, Bool.false_eq_true, iff_false, not_forall]
      exact ⟨.refstr noExport, by simp [drift]⟩
    | discard =>
      cases saved with
      | nil => cases h
      | cons last saved =>
        by_cases hnone : last.savedPnfsDs = none
        · simp [drift, keepsBalance, hnone]
        · simp only [drift, keepsBalance, hnone, if_false, isNone_iff_eq_none,
            Bool.or_eq_true, beq_iff_eq, false_or, Int.sub_eq_zero, Int.natCast_inj]
          rw [← count_references_none_eq_iff]
          exact forall_congr' fun obj => eq_comm
    | _ => simp [drift, keepsBalance]

theorem not_keepsBalance_of_faulted {before : Contexts}
    (h : ctxStep noExport (.live before) op = some .faulted) :
    keepsBalance (.live before) op = false := by
  obtain ⟨counts, _ | ⟨⟨ctx, _ | ⟨last, saved⟩⟩, below⟩⟩ := before
  · cases op <;> cases h
  · cases op <;> cases h
  · cases op with
    | discard =>
      simp only [ctxStep] at h
      split at h
      next hnone =>
        simp only [discardOpContextExport, map_eq_none_iff] at hnone
        split at hnone
        next => cases hnone
        next => cases hnone
        next hlast hctx => simp [keepsBalance, hlast, hctx]
      next => cases h
    | _ => cases h

/-- In every run whose calls keep the balance each count is its initial value and the contexts that
name the object; so it is never below its holders and back at the end. Any other call ends this. -/
theorem contexts_balance_iff {noExport : Nat} {initial : RefCounts} {s : CtxState}
    (hs : (ctxMachine noExport initial).ReachableBy (fun s op => keepsBalance s op = true) s) :
    Balanced initial s ∧
      (∀ contexts, s = .live contexts →
        (contexts.frames = [] → contexts.counts = initial) ∧
        ((∀ obj, 0 ≤ initial obj) → ∀ obj, contexts.holders obj ≤ contexts.counts obj)) ∧
      ∀ op t, (ctxMachine noExport initial).step s op = some t →
        (keepsBalance s op = true ↔ Balanced initial t) := by
  have hstep : ∀ s op t, Balanced initial s → ctxStep noExport s op = some t →
      (keepsBalance s op = true ↔ Balanced initial t) := by
    intro s op t hbal h
    cases s with
    | faulted => cases h
    | live before =>
      cases t with
      | faulted =>
        rw [not_keepsBalance_of_faulted h]
        exact iff_of_false (by simp) id
      | live after =>
        have hbefore := balanced_live_iff.1 hbal
        rw [balanced_live_iff, ← drift_eq_zero_iff h]
        refine forall_congr' fun obj => ?_
        rw [surplus_step h obj, hbefore obj, Int.zero_add]
  have hbal : Balanced initial s := by
    refine hs.invariant ?_ fun s op t hbal hkeeps h => (hstep s op t hbal h).1 hkeeps
    rintro s rfl obj
    simp [holders]
  refine ⟨hbal, ?_, fun op t h => hstep s op t hbal h⟩
  rintro contexts rfl
  refine ⟨fun hnil => funext fun obj => ?_, fun hinitial obj => ?_⟩
  · have hobj := hbal obj
    simpa [holders, hnil] using hobj
  · have hobj := hbal obj
    have hge := hinitial obj
    omega

def oneRef : RefCounts := fun _ => 1

def exportA : CtxExport := ⟨1, some 1, some 2, none⟩

def exportB : CtxExport := ⟨2, some 3, none, none⟩

/-- A nested context, a discard and a data server, all released at the end. -/
theorem contexts_balance_discard :
    ∃ contexts, contexts.frames = [] ∧
      (ctxMachine 0 oneRef).ReachableBy (fun s op => keepsBalance s op = true) (.live contexts) ∧
      contexts.counts = oneRef := by
  have hrun : ∃ contexts, (ctxMachine 0 oneRef).runFromBy (fun s op => keepsBalance s op = true)
      (.live ⟨oneRef, []⟩)
      [.init (some exportA) none, .saveAndSet exportB, .init none none,
        .setPnfsDs ⟨7, some exportA, none⟩, .release, .discard, .release] =
      some (.live contexts) ∧ contexts.frames = [] := ⟨_, rfl, rfl⟩
  obtain ⟨contexts, hrun, hnil⟩ := hrun
  have hreach := Machine.reachableBy_of_runFromBy (.init rfl) _ hrun
  exact ⟨contexts, hnil, hreach, ((contexts_balance_iff hreach).2.1 contexts rfl).1 hnil⟩

/-- A save and a restore: after the release of the context the shared string has two references
more than before. -/
theorem restore_leaks_no_export :
    ∃ contexts, (ctxMachine 0 oneRef).Reachable (.live contexts) ∧ contexts.frames = [] ∧
      contexts.counts (.refstr 0) = 3 ∧ ¬ Balanced oneRef (.live contexts) := by
  have hrun : ∃ contexts, (ctxMachine 0 oneRef).runFrom (.live ⟨oneRef, []⟩)
      [.init (some exportA) none, .saveAndSet exportB, .restore, .release] =
      some (.live contexts) ∧ contexts.frames = [] ∧ contexts.counts (.refstr 0) = 3 :=
    ⟨_, rfl, rfl, rfl⟩
  obtain ⟨contexts, hrun, hnil, hthree⟩ := hrun
  refine ⟨contexts, Machine.reachable_of_runFrom (.init rfl) _ hrun, hnil, hthree, fun hbal => ?_⟩
  have hobj := hbal (.refstr 0)
  simp [holders, hnil, hthree, oneRef] at hobj

end EdgeComputing.Fsal

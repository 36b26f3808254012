import Mathlib.Logic.Basic
import Mathlib.Tactic.SplitIfs
import EdgeComputing.Fsal.FsalErr

/-!
The evaluation of NFSv4 ACLs: an applicable ALLOW ace takes its bits out of the missing ones, an
applicable DENY ace with a missing bit ends the walk or, if asked to continue, marks the bits.
-/

namespace EdgeComputing.Fsal

open BitVec

inductive AceType
  | allow | deny | audit | alarm
deriving DecidableEq

structure FsalAce where
  type : AceType
  perm : BitVec 32
  flag : BitVec 32
  iflag : BitVec 32
  who : BitVec 32
deriving DecidableEq

def permReadData : BitVec 32 := 0x1
def permWriteData : BitVec 32 := 0x2
def permAppendData : BitVec 32 := 0x4
def permExecute : BitVec 32 := 0x20
def permDeleteChild : BitVec 32 := 0x40
def permReadAttr : BitVec 32 := 0x80
def permWriteAttr : BitVec 32 := 0x100
def permReadAcl : BitVec 32 := 0x20000
def permWriteAcl : BitVec 32 := 0x40000
def permWriteOwner : BitVec 32 := 0x80000
def permSynchronize : BitVec 32 := 0x100000

def flagInheritOnly : BitVec 32 := 0x8
def flagGroupId : BitVec 32 := 0x40
def iflagExcludeFiles : BitVec 32 := 0x40000000
def iflagExcludeDirs : BitVec 32 := 0x20000000
def iflagSpecialId : BitVec 32 := 0x80000000

def specialOwner : BitVec 32 := 1
def specialGroup : BitVec 32 := 2
def specialEveryone : BitVec 32 := 3
def specialMask : BitVec 32 := 4

def permContinue : BitVec 32 := 0x40000000
def reqFlag : BitVec 32 := 0x10000000

structure UserCred where
  callerUid : BitVec 32
  callerGid : BitVec 32
  callerGarray : List (BitVec 32)
deriving DecidableEq

structure ObjAttrs where
  owner : BitVec 32
  group : BitVec 32
  isDir : Bool
  acl : Option (List FsalAce)
deriving DecidableEq

def fsalCheckAceOwner (uid : BitVec 32) (creds : UserCred) : Bool := creds.callerUid = uid

def fsalCheckAceGroup (gid : BitVec 32) (creds : UserCred) : Bool :=
  creds.callerGid = gid || creds.callerGarray.contains gid

def fsalCheckAceMatches (ace : FsalAce) (creds : UserCred) (isOwner isGroup : Bool) : Bool :=
  if ace.iflag &&& iflagSpecialId ≠ 0 then
    if ace.who = specialOwner then isOwner
    else if ace.who = specialGroup then isGroup
    else ace.who = specialEveryone
  else if ace.flag &&& flagGroupId ≠ 0 then fsalCheckAceGroup ace.who creds
  else fsalCheckAceOwner ace.who creds

def fsalCheckAceApplicable (ace : FsalAce) (creds : UserCred) (isDir isOwner isGroup isRoot : Bool) :
    Bool :=
  if ace.flag &&& flagInheritOnly ≠ 0 then false
  else if !isDir && ace.iflag &&& iflagExcludeFiles ≠ 0 then false
  else if isDir && ace.iflag &&& iflagExcludeDirs ≠ 0 then false
  else isRoot || fsalCheckAceMatches ace creds isOwner isGroup

/-- The variables of the walk; `denied` is `none` if the caller passes no pointer. -/
structure AccessState where
  missing : BitVec 32
  allowed : BitVec 32
  denied : Option (BitVec 32)
deriving DecidableEq

/-- EPERM for the bits that only the owner may use, EACCES for the others. -/
def deniedError (bits : BitVec 32) : FsalErr :=
  if bits &&& (permWriteAttr ||| permWriteAcl ||| permWriteOwner) ≠ 0 then .perm else .access

def AccessState.allow (v4mask perm : BitVec 32) (st : AccessState) : AccessState :=
  let tperm := match st.denied with
    | some denied => perm &&& ~~~denied
    | none => perm
  { st with
    allowed := st.allowed ||| (v4mask &&& tperm)
    missing := st.missing &&& ~~~(tperm &&& st.missing) }

def AccessState.deny (v4mask perm : BitVec 32) (st : AccessState) : AccessState :=
  { st with
    denied := st.denied.map fun denied => denied ||| (v4mask &&& perm)
    missing := st.missing &&& ~~~(perm &&& st.missing) }

def accessLoop (applicable : FsalAce → Bool) (isRoot : Bool) (v4mask : BitVec 32) :
    List FsalAce → AccessState → Option FsalErr × AccessState
  | [], st => (none, st)
  | ace :: rest, st =>
    if (ace.type = .allow ∨ ace.type = .deny) ∧ applicable ace then
      if ace.type = .allow then
        let st := st.allow v4mask ace.perm
        if st.missing = 0 then (none, st) else accessLoop applicable isRoot v4mask rest st
      else if ace.perm &&& st.missing ≠ 0 ∧ !isRoot then
        let st' := st.deny v4mask ace.perm
        if st.denied = none ∨ v4mask &&& permContinue = 0 then
          (some (deniedError (ace.perm &&& st.missing)), { st' with missing := st.missing })
        else if st'.missing = 0 then (none, st')
        else accessLoop applicable isRoot v4mask rest st'
      else accessLoop applicable isRoot v4mask rest st
    else accessLoop applicable isRoot v4mask rest st

def accessResult (v4mask : BitVec 32) : Option FsalErr × AccessState → FsalErr
  | (some err, _) => err
  | (none, st) =>
    if v4mask &&& reqFlag ≠ 0 ∧ st.missing ≠ 0 then .noAce
    else if st.missing ≠ 0 ∨ st.denied.getD 0 ≠ 0 then deniedError st.missing
    else .noError

def ownerBits : BitVec 32 := permWriteAcl ||| permReadAcl ||| permWriteAttr ||| permReadAttr

/-- `fsal_check_access_acl`. `wantDenied` says that a pointer for the denied bits is passed,
`isRoot` that the caller is the superuser. -/
def fsalCheckAccessAcl (isRoot : Bool) (creds : UserCred) (v4mask : BitVec 32) (wantDenied : Bool)
    (attrs : ObjAttrs) : FsalErr :=
  match attrs.acl with
  | none => .noAce
  | some aces =>
    let missing := v4mask &&& ~~~permContinue
    if missing = 0 then .noError
    else if isRoot && attrs.isDir then .noError
    else
      let missing := if isRoot then missing &&& permExecute else missing
      if missing = 0 then .noError
      else
        let isOwner := fsalCheckAceOwner attrs.owner creds
        let isGroup := fsalCheckAceGroup attrs.group creds
        let allowed := if isRoot then v4mask &&& ~~~permExecute else 0
        let allowed := if isOwner then allowed ||| (v4mask &&& ownerBits) else allowed
        let missing := if isOwner then missing &&& ~~~ownerBits else missing
        if missing = 0 then .noError
        else
          let applicable ace :=
            fsalCheckAceApplicable ace creds attrs.isDir isOwner isGroup isRoot
          accessResult v4mask (accessLoop applicable isRoot v4mask aces
            ⟨missing, allowed, if wantDenied then some 0 else none⟩)

def AceType.decision : AceType → Option Bool
  | .allow => some true
  | .deny => some false
  | .audit | .alarm => none

def aceDecision (applicable : FsalAce → Bool) (bits : BitVec 32) (ace : FsalAce) : Option Bool :=
  if applicable ace ∧ ace.perm &&& bits = bits then ace.type.decision else none

def Together (bits : BitVec 32) (ace : FsalAce) : Prop :=
  ace.perm &&& bits = bits ∨ ace.perm &&& bits = 0

section Walk

variable {applicable : FsalAce → Bool} {v4mask bits : BitVec 32} {ace : FsalAce} {st : AccessState}

theorem deniedError_ne_noError (bits : BitVec 32) : deniedError bits ≠ .noError := by
  unfold deniedError
  split <;> simp

def AccessState.Undenied (st : AccessState) : Prop := st.denied.getD 0 = 0

theorem AccessState.Undenied.allow (h : st.Undenied) (v4mask perm : BitVec 32) :
    (st.allow v4mask perm).missing = st.missing &&& ~~~(perm &&& st.missing) ∧
      (st.allow v4mask perm).Undenied := by
  obtain ⟨missing, allowed, denied⟩ := st
  cases denied with
  | none => exact ⟨rfl, rfl⟩
  | some denied =>
    have hzero : denied = 0 := h
    subst hzero
    refine ⟨?_, rfl⟩
    have hall : perm &&& ~~~(0 : BitVec 32) = perm := and_allOnes
    simp only [AccessState.allow, hall]

theorem and_not_and_self {perm bits : BitVec 32} (h : perm &&& bits = bits) :
    bits &&& ~~~(perm &&& bits) = 0 := by
  rw [h]
  exact and_not_self bits

theorem accessResult_allow (isRoot : Bool) (v4mask : BitVec 32) (rest : List FsalAce)
    (htype : ace.type = .allow) (happlicable : applicable ace = true)
    (hhas : ace.perm &&& st.missing = st.missing) (hdenied : st.Undenied) :
    accessResult v4mask (accessLoop applicable isRoot v4mask (ace :: rest) st) = .noError := by
  obtain ⟨hmissing, hdenied'⟩ := hdenied.allow v4mask ace.perm
  have hzero : (st.allow v4mask ace.perm).missing = 0 := by
    rw [hmissing]
    exact and_not_and_self hhas
  rw [accessLoop, if_pos ⟨.inl htype, happlicable⟩, if_pos htype]
  dsimp only
  rw [if_pos hzero, accessResult, if_neg (by simp [hzero]),
    if_neg (by simp only [hzero, ne_eq, not_true_eq_false, false_or]; exact not_not.2 hdenied')]

theorem accessResult_deny (rest : List FsalAce) (htype : ace.type = .deny)
    (happlicable : applicable ace = true) (hhas : ace.perm &&& st.missing = st.missing)
    (hne : st.missing ≠ 0) (hmask : v4mask &&& st.missing = st.missing) :
    accessResult v4mask (accessLoop applicable false v4mask (ace :: rest) st) ≠ .noError := by
  have hzero : (st.deny v4mask ace.perm).missing = 0 := and_not_and_self hhas
  rw [accessLoop, if_pos ⟨.inr htype, happlicable⟩, if_neg (by simp [htype]),
    if_pos ⟨by rw [hhas]; exact hne, rfl⟩]
  dsimp only
  split_ifs with hstop
  · exact deniedError_ne_noError _
  · -- the walk goes on only if the denied bits are reported, and they are not empty
    obtain ⟨denied, hdenied⟩ : ∃ denied, st.denied = some denied :=
      Option.ne_none_iff_exists'.1 fun h => hstop (.inl h)
    have hreported : (st.deny v4mask ace.perm).denied.getD 0 ≠ 0 := by
      intro hcontra
      simp only [AccessState.deny, hdenied, Option.map_some, Option.getD_some] at hcontra
      have hperm : v4mask &&& ace.perm = 0 := (or_eq_zero_iff.1 hcontra).2
      apply hne
      calc st.missing = v4mask &&& (ace.perm &&& st.missing) := by rw [hhas, hmask]
        _ = 0 := by rw [← BitVec.and_assoc, hperm]; exact zero_and
    rw [accessResult, if_neg (by simp [hzero]), if_pos (.inr hreported)]
    exact deniedError_ne_noError _

/-- The walk grants the missing bits exactly if the first applicable ace that has them is
an ALLOW. -/
theorem accessResult_eq_noError_iff (aces : List FsalAce) (hzero : bits ≠ 0)
    (hmask : v4mask &&& bits = bits) (htogether : ∀ ace ∈ aces, Together bits ace)
    (hmissing : st.missing = bits) (hdenied : st.Undenied) :
    accessResult v4mask (accessLoop applicable false v4mask aces st) = .noError ↔
      aces.findSome? (aceDecision applicable bits) = some true := by
  induction aces generalizing st with
  | nil =>
    have hne : st.missing ≠ 0 := by rw [hmissing]; exact hzero
    simp only [accessLoop, accessResult, List.findSome?_nil, reduceCtorEq, iff_false]
    split_ifs with hreq hmiss
    · simp
    · exact deniedError_ne_noError _
    · exact absurd (.inl hne) hmiss
  | cons ace rest ih =>
    have htail : ∀ ace ∈ rest, Together bits ace :=
      fun ace h => htogether ace (List.mem_cons_of_mem _ h)
    rw [List.findSome?_cons]
    by_cases happlicable : (ace.type = .allow ∨ ace.type = .deny) ∧ applicable ace = true
    · obtain ⟨htype, happ⟩ := happlicable
      rcases htogether ace List.mem_cons_self with hhas | hnot
      · rcases htype with htype | htype
        · have hgrant := accessResult_allow false v4mask rest htype happ
            (hmissing ▸ hhas) hdenied
          simp [aceDecision, AceType.decision, happ, hhas, htype, hgrant]
        · have hdeny := accessResult_deny rest htype happ (hmissing ▸ hhas)
            (hmissing ▸ hzero) (hmissing ▸ hmask)
          simp [aceDecision, AceType.decision, happ, hhas, htype, hdeny]
      · have hnone : aceDecision applicable bits ace = none := by
          unfold aceDecision
          rw [if_neg fun ⟨_, hhas⟩ => hzero (hhas.symm.trans hnot)]
        rw [hnone]
        rcases htype with htype | htype
        · obtain ⟨hmissing', hdenied'⟩ := hdenied.allow v4mask ace.perm
          rw [hmissing, hnot, show bits &&& ~~~(0 : BitVec 32) = bits from and_allOnes] at hmissing'
          rw [accessLoop, if_pos ⟨.inl htype, happ⟩, if_pos htype]
          dsimp only
          rw [if_neg (by rw [hmissing']; exact hzero)]
          exact ih htail hmissing' hdenied'
        · rw [accessLoop, if_pos ⟨.inr htype, happ⟩, if_neg (by simp [htype]),
            if_neg (by rw [hmissing, hnot]; simp)]
          exact ih htail hmissing hdenied
    · have hnone : aceDecision applicable bits ace = none := by
        unfold aceDecision
        split_ifs with h
        · cases htype : ace.type with
          | allow => exact absurd ⟨.inl htype, h.1⟩ happlicable
          | deny => exact absurd ⟨.inr htype, h.1⟩ happlicable
          | audit => rfl
          | alarm => rfl
        · rfl
      rw [hnone, accessLoop, if_neg happlicable]
      exact ih htail hmissing hdenied

end Walk

theorem and_not_of_disjoint {x y : BitVec 32} (h : x &&& y = 0) : x &&& ~~~y = x := by
  ext i hi
  have hi' : (x &&& y).getLsbD i = (0 : BitVec 32).getLsbD i := by rw [h]
  simp only [getLsbD_and] at hi'
  simp only [getElem_and, getElem_not]
  grind

/-- For bits that go together and are not the owner's, a caller who is not the superuser has access
exactly if the first applicable ace that has them is an ALLOW. -/
theorem fsalCheckAccessAcl_eq_noError_iff {creds : UserCred} {v4mask bits : BitVec 32}
    {attrs : ObjAttrs} {aces : List FsalAce} (hacl : attrs.acl = some aces)
    (hbits : v4mask &&& ~~~permContinue = bits) (hzero : bits ≠ 0)
    (howner : bits &&& ownerBits = 0) (htogether : ∀ ace ∈ aces, Together bits ace)
    (wantDenied : Bool) :
    fsalCheckAccessAcl false creds v4mask wantDenied attrs = .noError ↔
      aces.findSome? (aceDecision (fun ace => fsalCheckAceApplicable ace creds attrs.isDir
        (fsalCheckAceOwner attrs.owner creds) (fsalCheckAceGroup attrs.group creds) false) bits) =
      some true := by
  have hmask : v4mask &&& bits = bits := by
    rw [← hbits, ← BitVec.and_assoc, BitVec.and_self]
  have hmissing : (if fsalCheckAceOwner attrs.owner creds then bits &&& ~~~ownerBits else bits) =
      bits := by
    split
    · exact and_not_of_disjoint howner
    · rfl
  unfold fsalCheckAccessAcl
  simp only [hacl, hbits, hzero, if_false, Bool.false_and, Bool.false_eq_true, hmissing]
  apply accessResult_eq_noError_iff aces hzero hmask htogether rfl
  cases wantDenied <;> rfl

end EdgeComputing.Fsal

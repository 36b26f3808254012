import EdgeComputing.Library.Machine

/-!
The local grace period (nfs4_recovery.c). One word holds a bit for being in grace, a bit for a
change of that, and the number of references to the current status. Each atomic access to the word
is one step. What `nfs_start_grace` and `nfs_try_lift_grace` decide from the clock, the reclaims and
the recovery backend is left open.
-/

namespace EdgeComputing.Sal

open Library

def graceStatusActive : BitVec 32 := 1#32 <<< 0

def graceStatusChangeReq : BitVec 32 := 1#32 <<< 1

def graceStatusRefIncrement : BitVec 32 := 1#32 <<< 2

def graceStatusCountMask : BitVec 32 := ~~~0#32 <<< 2

namespace GraceWord

def active (word : BitVec 32) : Bool := word &&& graceStatusActive != 0

def changeReq (word : BitVec 32) : Bool := word &&& graceStatusChangeReq != 0

def count (word : BitVec 32) : Nat := (word >>> 2).toNat

/-- What `nfs_start_grace` makes of a word that is not in grace: with references outstanding a change
is requested, without it takes effect. -/
def started (old : BitVec 32) : BitVec 32 :=
  if old &&& graceStatusCountMask ≠ 0 then old ||| graceStatusChangeReq
  else (old ||| graceStatusActive) &&& ~~~graceStatusChangeReq

def lifted (word : BitVec 32) : BitVec 32 :=
  word &&& ~~~(graceStatusActive ||| graceStatusChangeReq)

end GraceWord

open GraceWord

structure Getter where
  want : Bool
  cur : BitVec 32
  deriving DecidableEq

/-- The loop body: no reference if the status is not the wanted one or about to change. -/
def getBody (want : Bool) (cur : BitVec 32) : Option Getter :=
  if want ≠ active cur then none
  else if changeReq cur then none
  else some ⟨want, cur⟩

/-- Where the holder of `grace_mutex` is: the next access to the word, the question to the recovery
backend, or the end. `unlock` carries whether `-EAGAIN` is returned. -/
inductive GraceSection
  | startFetch
  | startCas (old pro : BitVec 32)
  | liftFetch
  | liftCas (old : BitVec 32)
  | tryLiftGrace
  | inGrace
  | endGrace
  | unlock (eagain : Bool)
  deriving DecidableEq

def startBody (old : BitVec 32) : GraceSection :=
  if active old then .unlock false
  else if started old = old then .unlock (old &&& graceStatusCountMask ≠ 0)
  else .startCas old (started old)

/-- After the loop of `nfs_try_lift_grace`: lift if there are no references and the backend agrees. -/
def afterRequest (old : BitVec 32) : GraceSection :=
  if old &&& graceStatusCountMask = 0 then .tryLiftGrace else .unlock false

def liftBody (old : BitVec 32) : GraceSection :=
  if ¬ active old then .unlock false
  else if old ||| graceStatusChangeReq = old then afterRequest old
  else .liftCas old

/-- `refs` are the references handed out and not yet put, each with what it was wanted for;
`lifters` counts the calls of `nfs_try_lift_grace` that wait for the mutex. -/
structure GraceStatus where
  word : BitVec 32
  refs : List Bool
  getters : List Getter
  lifters : Nat
  holder : Option GraceSection
  assertFailed : Bool

inductive GraceAccess
  | get (want : Bool)
  | getCas (i : Nat)
  | put (want : Bool)
  | startGrace
  | tryLift
  | tryLiftLock (inGrace : Bool)
  | advance (answer : Bool)
  deriving DecidableEq

namespace GraceStatus

def get (s : GraceStatus) (want : Bool) : GraceStatus :=
  { s with getters := s.getters ++ (getBody want s.word).toList }

/-- The compare-and-swap of `nfs_get_grace_status`; a failed one goes around the loop. -/
def getCas (s : GraceStatus) (i : Nat) : Option GraceStatus :=
  (s.getters[i]?).map fun g =>
    if s.word = g.cur then
      { s with word := g.cur + graceStatusRefIncrement, refs := g.want :: s.refs,
               getters := s.getters.eraseIdx i }
    else { s with getters := s.getters.eraseIdx i ++ (getBody g.want s.word).toList }

def put (s : GraceStatus) (want : Bool) : Option GraceStatus :=
  if want ∈ s.refs then
    some { s with word := s.word - graceStatusRefIncrement, refs := s.refs.erase want }
  else none

def advance (s : GraceStatus) (answer : Bool) : GraceSection → GraceStatus
  | .startFetch => { s with holder := some (startBody s.word) }
  | .startCas old pro =>
    if s.word = old then
      { s with word := pro, holder := some (.unlock (old &&& graceStatusCountMask ≠ 0)) }
    else { s with holder := some (startBody s.word) }
  | .liftFetch => { s with holder := some (liftBody s.word) }
  | .liftCas old =>
    if s.word = old then
      { s with word := old ||| graceStatusChangeReq, holder := some (afterRequest old) }
    else { s with holder := some (liftBody s.word) }
  | .tryLiftGrace => { s with holder := some (if answer then .inGrace else .unlock false) }
  | .inGrace => { s with holder := some (if active s.word then .endGrace else .unlock false) }
  | .endGrace =>
    { s with word := lifted s.word, holder := some (.unlock false),
             assertFailed := s.assertFailed || (lifted s.word &&& graceStatusCountMask != 0) }
  | .unlock _ => { s with holder := none }

def step (graceless : Bool) (s : GraceStatus) : GraceAccess → Option GraceStatus
  | .get want => some (s.get want)
  | .getCas i => s.getCas i
  | .put want => s.put want
  | .startGrace =>
    if s.holder = none then
      some { s with holder := some (if graceless then .inGrace else .startFetch) }
    else none
  | .tryLift => if active s.word then some { s with lifters := s.lifters + 1 } else some s
  | .tryLiftLock inGrace =>
    if s.holder = none ∧ 0 < s.lifters then
      some { s with lifters := s.lifters - 1,
                    holder := some (if inGrace then .unlock false else .liftFetch) }
    else none
  | .advance answer => s.holder.map (s.advance answer)

end GraceStatus

/-- Any number of threads, from the start of the server; `graceless` is its configuration. -/
def graceStatusMachine (graceless : Bool) : Machine GraceStatus GraceAccess where
  init s := s = ⟨0, [], [], 0, none, false⟩
  step := GraceStatus.step graceless

end EdgeComputing.Sal

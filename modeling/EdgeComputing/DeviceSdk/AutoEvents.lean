import Mathlib.Data.List.Perm.Basic

/-!
Autoevents (autoevent.c): a run reads the resource and uploads an event; with `onChange` set, none
for the raw reading uploaded last. Arrays of results have addresses, so that a second `free` shows.
-/

namespace EdgeComputing.DeviceSdk

open List

/-- What is done with the value of one request: its transforms, and the test of its assertion. -/
structure RequestCheck (ν : Type*) where
  transform : ν → ν
  assertion : ν → Bool

/-- The values as they are left, and whether an event is made of them. -/
def processEvent {ν : Type*} : List (RequestCheck ν) → List ν → List ν × Bool
  | pval :: pvals, value :: values =>
    let value := pval.transform value
    if pval.assertion value then
      let (values, event) := processEvent pvals values
      (value :: values, event)
    else (value :: values, false)
  | _, values => (values, true)

inductive RunDevice
  | unknown | unavailable | available
  deriving DecidableEq

/-- What a run meets: the device, the outcome of the driver's read and that of the upload. -/
structure Run (ν : Type*) where
  device : RunDevice
  reading : Option (List ν)
  uploaded : Bool

structure ResultArray (ν : Type*) where
  address : Nat
  values : List ν

structure AutoImpl (ν : Type*) where
  onChange : Bool
  last : Option (ResultArray ν) := none
  allocated : Nat := 0
  freed : List Nat := []

namespace AutoImpl

variable {ν : Type*}

def commandresultAlloc (ai : AutoImpl ν) (values : List ν) : ResultArray ν × AutoImpl ν :=
  (⟨ai.allocated, values⟩, { ai with allocated := ai.allocated + 1 })

def commandresultFree (ai : AutoImpl ν) (res : Option (ResultArray ν)) : AutoImpl ν :=
  { ai with freed := (res.map (·.address)).toList ++ ai.freed }

/-- The release of the last reference. -/
def release (ai : AutoImpl ν) : AutoImpl ν := { ai.commandresultFree ai.last with last := none }

end AutoImpl

section Runs

variable {ν : Type*} [DecidableEq ν] (pvals : List (RequestCheck ν))

/-- Whether an upload is tried. The copy is made before the values are transformed. -/
def aeRunner (ai : AutoImpl ν) (run : Run ν) : Bool × AutoImpl ν :=
  match run.device, run.reading with
  | .unknown, _ | .unavailable, _ => (false, ai)
  | .available, none =>
    let (results, ai) := ai.commandresultAlloc []
    (false, ai.commandresultFree results)
  | .available, some reading =>
    let (results, ai) := ai.commandresultAlloc reading
    if ai.onChange && ai.last.any (·.values = results.values) then
      (false, ai.commandresultFree results)
    else
      let (resdup, ai) := if ai.onChange then
          let (resdup, ai) := ai.commandresultAlloc results.values
          (some resdup, ai)
        else (none, ai)
      let (values, event) := processEvent pvals results.values
      let results : ResultArray ν := { results with values }
      if event then
        let (resdup, ai) := if run.uploaded && ai.onChange then
            (none, { ai.commandresultFree ai.last with last := resdup })
          else (resdup, ai)
        (true, (ai.commandresultFree resdup).commandresultFree results)
      else (false, (ai.commandresultFree resdup).commandresultFree results)

/-- Runs one after another: each with whether it tried to upload, and the state at the end. -/
def aeRuns (ai : AutoImpl ν) : List (Run ν) → List (Run ν × Bool) × AutoImpl ν
  | [] => ([], ai)
  | run :: runs =>
    let (tried, ai) := aeRunner pvals ai run
    let (log, ai) := aeRuns ai runs
    ((run, tried) :: log, ai)

/-- The raw reading of the most recent successful upload. -/
def lastUploaded (log : List (Run ν × Bool)) (before : Option (List ν)) : Option (List ν) :=
  log.foldl (fun last entry => if entry.2 && entry.1.uploaded then entry.1.reading else last) before

structure Remembers (ai : AutoImpl ν) (last : Option (List ν)) : Prop where
  onChange : ai.onChange = true
  values : ai.last.map (·.values) = last
  freed_once : ai.release.freed ~ range ai.allocated

theorem perm_range_alloc {freed : List Nat} {n : Nat} (h : freed ~ range n) :
    n :: freed ~ range (n + 1) := by
  rw [range_succ]
  exact (h.cons n).trans (perm_append_singleton n _).symm

/-- One run: what is tried, and what is remembered afterwards. -/
theorem aeRunner_spec {ai : AutoImpl ν} {last : Option (List ν)} (h : Remembers ai last)
    (run : Run ν) :
    ((aeRunner pvals ai run).1 = true ↔ run.device = .available ∧ ∃ raw, run.reading = some raw ∧
        last ≠ some raw ∧ (processEvent pvals raw).2 = true) ∧
      Remembers (aeRunner pvals ai run).2
        (if (aeRunner pvals ai run).1 && run.uploaded then run.reading else last) := by
  obtain ⟨hchange, rfl, hfreed⟩ := h
  obtain ⟨change, last, n, freed⟩ := ai
  obtain rfl : change = true := hchange
  have halloc := perm_range_alloc hfreed
  have hdup := perm_range_alloc halloc
  have hresults : (last.map (·.address)).toList ++ n :: freed ~ range (n + 1) :=
    perm_middle.trans halloc
  have hresdup : (last.map (·.address)).toList ++ n :: (n + 1) :: freed ~ range (n + 1 + 1) :=
    (perm_middle.trans ((perm_middle.cons n).trans (.swap _ _ _))).trans hdup
  obtain ⟨_ | _ | _, _ | raw, uploaded⟩ := run
  case available.none => exact ⟨by simp [aeRunner], rfl, rfl, hresults⟩
  case available.some =>
    by_cases hsame : last.map (·.values) = some raw
    · have hlast : last.any (·.values = raw) = true := by cases last <;> simp_all
      have hrun : aeRunner pvals ⟨true, last, n, freed⟩ ⟨.available, some raw, uploaded⟩ =
          (false, ⟨true, last, n + 1, n :: freed⟩) := if_pos hlast
      rw [hrun]
      exact ⟨by simp [hsame], rfl, rfl, hresults⟩
    · have hlast : last.any (·.values = raw) = false := by cases last <;> simp_all
      rcases hevent : processEvent pvals raw with ⟨values, event⟩
      have hrun : aeRunner pvals ⟨true, last, n, freed⟩ ⟨.available, some raw, uploaded⟩ =
          (event, if event && uploaded then
            ⟨true, some ⟨n + 1, raw⟩, n + 1 + 1, n :: ((last.map (·.address)).toList ++ freed)⟩
          else ⟨true, last, n + 1 + 1, n :: (n + 1) :: freed⟩) := by
        refine (if_neg (by simpa using hlast)).trans ?_
        simp only [hevent]
        cases event <;> cases uploaded <;> rfl
      rw [hrun]
      refine ⟨by simp only [Option.some.injEq, exists_eq_left', ne_eq, hsame, hevent]; simp, ?_⟩
      cases hkept : event && uploaded with
      | false => exact ⟨rfl, rfl, hresdup⟩
      | true => exact ⟨rfl, rfl, hdup⟩
  all_goals exact ⟨by simp [aeRunner], rfl, rfl, hfreed⟩

theorem aeRuns_spec {ai : AutoImpl ν} {last : Option (List ν)} (h : Remembers ai last)
    (runs : List (Run ν)) :
    Remembers (aeRuns pvals ai runs).2 (lastUploaded (aeRuns pvals ai runs).1 last) := by
  induction runs generalizing ai last with
  | nil => exact h
  | cons run runs ih => exact ih (aeRunner_spec pvals h run).2

/-- After any runs of an autoevent with `onChange` set, a further run tries to upload exactly if the
read succeeds, the raw reading differs from the one uploaded last and no assertion fails; and once
the autoevent is released every array is freed, and none twice. -/
theorem change_uploaded_iff (runs : List (Run ν)) (run : Run ν) :
    let after := aeRuns pvals { onChange := true } runs
    ((aeRunner pvals after.2 run).1 = true ↔ run.device = .available ∧ ∃ raw,
        run.reading = some raw ∧ lastUploaded after.1 none ≠ some raw ∧
          (processEvent pvals raw).2 = true) ∧
      after.2.release.freed ~ range after.2.allocated := by
  have hstart : Remembers (⟨true, none, 0, []⟩ : AutoImpl ν) none := ⟨rfl, rfl, .refl _⟩
  have hruns := aeRuns_spec pvals hstart runs
  exact ⟨(aeRunner_spec pvals hruns run).1, hruns.freed_once⟩

/-- A reading that is the first one and fails its assertion is not uploaded. -/
theorem failed_assertion_not_uploaded :
    (aeRunner [⟨id, (· == 0)⟩] { onChange := true } ⟨.available, some [1], true⟩).1 = false ∧
      lastUploaded ([] : List (Run Nat × Bool)) none ≠ some [1] := by
  decide

end Runs

end EdgeComputing.DeviceSdk

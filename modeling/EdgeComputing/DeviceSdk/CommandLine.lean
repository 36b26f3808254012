import EdgeComputing.DeviceSdk.DeviceCommands
import Mathlib.Data.List.Nodup

/-!
The command line of a device service (service.c). Recognised options are taken out of the argument
vector while it is scanned; one of the registry takes two words out whenever it has a parameter.
-/

namespace EdgeComputing.DeviceSdk

open List

/-- An argument: the pointer and what it points to. -/
structure CmdArg where
  addr : Nat
  text : List Char
  deriving DecidableEq

inductive CmdParam
  | name | profile | confdir | conffile
  deriving DecidableEq

inductive CmdOption
  | registry | param (var : CmdParam) | overwrite

def cmdOption (arg : List Char) : Option CmdOption :=
  if arg = "-r".toList ∨ arg = "--registry".toList then some .registry
  else if arg = "-cp".toList ∨ arg = "--configProvider".toList then some .registry
  else if arg = "-i".toList ∨ arg = "--instance".toList then some (.param .name)
  else if arg = "-p".toList ∨ arg = "--profile".toList then some (.param .profile)
  else if arg = "-c".toList ∨ arg = "--confdir".toList then some (.param .confdir)
  else if arg = "-f".toList ∨ arg = "--file".toList then some (.param .conffile)
  else if arg = "-o".toList ∨ arg = "--overwrite".toList then some .overwrite
  else none

/-- `regURL` is `none` for a null pointer. -/
structure CmdSettings where
  regURL : Option (List Char)
  var : CmdParam → Option (List Char)
  overwriteconfig : Bool

/-- The loop of `processCmdLine`: the vector up to `argv[n]` and from there on. `taken` is history:
the options recognised so far and the arguments that were their parameters. -/
structure CmdScan where
  kept : List CmdArg
  rest : List CmdArg
  svc : CmdSettings
  cpset : Bool := false
  result : Bool := true
  taken : List CmdArg := []

/-- Takes `nargs` words out from `argv[n]` on. Where there are fewer, nothing is moved, but `argc`
drops all the same. -/
def consumeArgs (nargs : Nat) (s : CmdScan) : CmdScan :=
  if nargs ≤ s.rest.length then { s with rest := s.rest.drop nargs }
  else { s with kept := s.kept.take (s.kept.length + s.rest.length - nargs), rest := [] }

def optName (arg : CmdArg) : List Char := arg.text.takeWhile (· ≠ '=')

def hasEq (arg : CmdArg) : Bool := '=' ∈ arg.text

/-- The text after the `=`, or the next argument. -/
def optVal (arg : CmdArg) (rest : List CmdArg) : Option (List Char) :=
  if hasEq arg then some (arg.text.dropWhile (· ≠ '=')).tail else rest.head?.map CmdArg.text

def regGiven (val : Option (List Char)) : Bool := val.any fun v => v ≠ [] && v.head? ≠ some '-'

def paramGiven (val : Option (List Char)) : Bool := val.any (· ≠ [])

/-- One turn of the loop. -/
def scanArg (s : CmdScan) : CmdScan :=
  match s.rest with
  | [] => s
  | arg :: rest =>
    let val := optVal arg rest
    let par := if hasEq arg then [] else rest.take 1
    match cmdOption (optName arg) with
    | some .registry =>
      let given := regGiven val
      let regURL := if given then val else s.svc.regURL.or (some [])
      consumeArgs (if given then 2 else 1) { s with
        svc := { s.svc with regURL }, cpset := true, result := !s.cpset
        taken := s.taken ++ arg :: (if given then par else []) }
    | some (.param var) =>
      let given := paramGiven val
      consumeArgs (if hasEq arg then 1 else 2) { s with
        svc := { s.svc with var := fun v => if given ∧ v = var then val else s.svc.var v }
        result := given, taken := s.taken ++ arg :: par }
    | some .overwrite =>
      consumeArgs 1 { s with
        svc := { s.svc with overwriteconfig := true }, taken := s.taken ++ [arg] }
    | none => { s with kept := s.kept ++ [arg], rest }

/-- `while (result && n < argc)`. -/
def scanLoop : Nat → CmdScan → CmdScan
  | 0, s => s
  | fuel + 1, s => if s.result && s.rest ≠ [] then scanLoop fuel (scanArg s) else s

/-- The states at the head of each turn. -/
def scanTurns : Nat → CmdScan → List CmdScan
  | 0, _ => []
  | fuel + 1, s => if s.result && s.rest ≠ [] then s :: scanTurns fuel (scanArg s) else []

def cmdStart (svc : CmdSettings) (argv : List CmdArg) : CmdScan :=
  { kept := argv.take 1, rest := argv.drop 1, svc }

def processCmdLine (svc : CmdSettings) (argv : List CmdArg) : CmdScan :=
  scanLoop argv.length (cmdStart svc argv)

/-- At this turn a parameter written after `=` has the effect of one that is an argument of its
own. -/
def SpelledAlike (s : CmdScan) : Prop :=
  ∀ addr opt val rest, s.rest = ⟨addr, opt ++ '=' :: val⟩ :: rest → '=' ∉ opt →
    (cmdOption opt = some .registry ∧ regGiven (some val) = true ∨
      ∃ var, cmdOption opt = some (.param var)) →
    ∀ addr' par, { scanArg s with taken := [] } =
      { scanArg { s with rest := ⟨addr', opt⟩ :: ⟨par, val⟩ :: rest } with taken := [] }

/-- The argument is an option of the registry with a parameter after `=`. -/
def RegistryEq (s : CmdScan) : Prop :=
  ∃ arg rest, s.rest = arg :: rest ∧ cmdOption (optName arg) = some .registry ∧
    hasEq arg = true ∧ regGiven (optVal arg []) = true

/-- The last argument of the vector, after only one, is an option without its parameter. -/
def LastWithoutParam (s : CmdScan) : Prop :=
  s.kept.length = 1 ∧ ∃ arg, s.rest = [arg] ∧ hasEq arg = false ∧
    ∃ var, cmdOption (optName arg) = some (.param var)

/-- What is asked of the final state and of the turns. -/
def LineRight (argv : List CmdArg) (turns : List CmdScan) (final : CmdScan) : Prop :=
  (final.result = true → final.rest = [] ∧ final.kept = argv.filter (· ∉ final.taken)) ∧
    (∀ s ∈ turns, SpelledAlike s) ∧ (argv ≠ [] → final.kept ++ final.rest ≠ [])

section Scan

variable {s : CmdScan} {arg : CmdArg} {rest argv : List CmdArg}

theorem optName_append {opt : List Char} (h : '=' ∉ opt) (addr : Nat) (val : List Char) :
    optName ⟨addr, opt ++ '=' :: val⟩ = opt := by
  rw [optName, takeWhile_append_of_pos (all_ne h), takeWhile_cons_of_neg (by simp), append_nil]

theorem optName_self {opt : List Char} (h : '=' ∉ opt) (addr : Nat) :
    optName ⟨addr, opt⟩ = opt := by
  rw [optName, takeWhile_eq_self_iff.mpr (all_ne h)]

theorem optVal_append {opt : List Char} (h : '=' ∉ opt) (addr : Nat) (val : List Char) :
    optVal ⟨addr, opt ++ '=' :: val⟩ rest = some val := by
  rw [optVal, if_pos (by simp [hasEq]), dropWhile_append_of_pos (all_ne h),
    dropWhile_cons_of_neg (by simp), tail_cons]

theorem optVal_next {opt : List Char} (h : '=' ∉ opt) (addr par : Nat) (val : List Char)
    (rest : List CmdArg) :
    hasEq ⟨addr, opt⟩ = false ∧ optVal ⟨addr, opt⟩ (⟨par, val⟩ :: rest) = some val := by
  simp [optVal, hasEq, h]

theorem spelledAlike_iff (hkept : s.kept ≠ []) : SpelledAlike s ↔ ¬ RegistryEq s := by
  constructor
  · rintro h ⟨⟨addr, text⟩, rest, hrest, hopt, htext, hgiven⟩
    obtain ⟨opt, val, rfl, hno⟩ := eq_append_cons_of_mem (of_decide_eq_true htext)
    rw [optName_append hno] at hopt
    rw [optVal_append hno] at hgiven
    have hsame := h addr opt val rest hrest hno (.inl ⟨hopt, hgiven⟩) 0 0
    simp only [scanArg, hrest, optName_append hno, optName_self hno, hopt, optVal_append hno,
      hgiven, optVal_next hno, if_true] at hsame
    have hlen := length_pos_iff.mpr hkept
    cases rest with
    | nil =>
      have hdropped := congrArg (length ∘ CmdScan.kept) hsame
      simp [consumeArgs] at hdropped
      omega
    | cons x rest => simpa [consumeArgs] using congrArg (length ∘ CmdScan.rest) hsame
  · rintro h addr opt val rest hrest hno hopt addr' par
    have heq : hasEq ⟨addr, opt ++ '=' :: val⟩ = true := by simp [hasEq]
    rcases hopt with ⟨hreg, hgiven⟩ | ⟨var, hopt⟩
    · refine absurd ⟨_, rest, hrest, ?_, heq, ?_⟩ h
      · rw [optName_append hno, hreg]
      · rwa [optVal_append hno]
    · obtain ⟨hnext, hval⟩ := optVal_next hno addr' par val rest
      simp [scanArg, hrest, optName_append hno, optName_self hno, hopt, optVal_append hno, heq,
        hnext, hval, consumeArgs]

/-- The arguments read so far are those kept and those taken. -/
def Parted (argv : List CmdArg) (s : CmdScan) : Prop :=
  ∃ read, argv = read ++ s.rest ∧ s.kept = read.filter (· ∉ s.taken) ∧ ∀ t ∈ s.taken, t ∈ read

theorem Parted.consume (hnodup : argv.Nodup) (h : Parted argv s) {n : Nat}
    (hn : n ≤ s.rest.length) {t : CmdScan} (hkept : t.kept = s.kept) (hrest : t.rest = s.rest)
    (htaken : t.taken = s.taken ++ s.rest.take n) : Parted argv (consumeArgs n t) := by
  obtain ⟨read, rfl, hfilter, hread⟩ := h
  have hdisj := disjoint_of_nodup_append hnodup
  rw [consumeArgs, hrest, if_pos hn]
  refine ⟨read ++ s.rest.take n, by simp, ?_, ?_⟩
  · have hnew : ∀ x ∈ read, x ∉ s.rest.take n := fun x hx ht => hdisj hx (mem_of_mem_take ht)
    have hnone : (s.rest.take n).filter (· ∉ s.taken ++ s.rest.take n) = [] := by
      simp +contextual [filter_eq_nil_iff]
    simp only [hkept, hfilter, htaken, filter_append, hnone, append_nil]
    exact filter_congr fun x hx => by simp [hnew x hx]
  · simp only [htaken, mem_append]
    exact fun x hx => hx.imp_left (hread x)

/-- One turn: the argument is kept, or words are consumed, which are then the ones taken; only an
option without its parameter and one of the registry can consume more than there is. -/
theorem scanArg_cases (hrest : s.rest = arg :: rest) (hreg : ¬ RegistryEq s) :
    scanArg s = { s with kept := s.kept ++ [arg], rest } ∨
      ∃ n t, scanArg s = consumeArgs n t ∧ t.kept = s.kept ∧ t.rest = s.rest ∧ 0 < n ∧
        (t.taken = s.taken ++ s.rest.take n ∧ n ≤ s.rest.length ∨
          n = 2 ∧ t.result = false ∧ s.rest = [arg] ∧ hasEq arg = false ∧
            ∃ var, cmdOption (optName arg) = some (.param var)) := by
  unfold scanArg
  rw [hrest]
  dsimp only
  rcases hopt : cmdOption (optName arg) with _ | _ | var | _
  · exact .inl rfl
  · refine .inr ⟨_, _, rfl, rfl, rfl, by split <;> decide, .inl ?_⟩
    cases hgiven : regGiven (optVal arg rest) with
    | false => simp
    | true =>
      cases heq : hasEq arg with
      | true =>
        refine absurd ⟨arg, rest, hrest, hopt, heq, ?_⟩ hreg
        simpa [optVal, heq] using hgiven
      | false =>
        cases rest with
        | nil => simp [optVal, heq, regGiven] at hgiven
        | cons par rest => simp
  · refine .inr ⟨_, _, rfl, rfl, rfl, by split <;> decide, ?_⟩
    cases heq : hasEq arg with
    | true => exact .inl (by simp)
    | false =>
      cases rest with
      | nil => exact .inr (by simp [optVal, heq, paramGiven])
      | cons par rest => exact .inl (by simp)
  · exact .inr ⟨_, _, rfl, rfl, rfl, Nat.one_pos, .inl (by simp)⟩

theorem scanArg_kept (hrest : s.rest = arg :: rest) (hreg : ¬ RegistryEq s)
    (hlast : ¬ LastWithoutParam s) (hkept : s.kept ≠ []) : (scanArg s).kept ≠ [] := by
  obtain heq | ⟨n, t, heq, htkept, htrest, -, hn⟩ := scanArg_cases hrest hreg
  · simp [heq]
  · rw [heq, consumeArgs, htrest, htkept]
    rcases hn with ⟨-, hn⟩ | ⟨rfl, -, hone, hopt⟩
    · rwa [if_pos hn]
    · have hlen : s.kept.length ≠ 1 := fun h => hlast ⟨h, arg, hone, hopt⟩
      have hpos := length_pos_iff.mpr hkept
      simp [hone, hkept]
      omega

theorem scanArg_parted (hnodup : argv.Nodup) (h : Parted argv s) (hrest : s.rest = arg :: rest)
    (hreg : ¬ RegistryEq s) (hresult : (scanArg s).result = true) : Parted argv (scanArg s) := by
  obtain heq | ⟨n, t, heq, htkept, htrest, -, ⟨htaken, hn⟩ | ⟨rfl, hfail, -⟩⟩ :=
    scanArg_cases hrest hreg
  · obtain ⟨read, rfl, hfilter, hread⟩ := h
    rw [hrest] at hnodup
    have hnew : arg ∉ s.taken := fun hmem =>
      disjoint_of_nodup_append hnodup (hread arg hmem) mem_cons_self
    rw [heq]
    exact ⟨read ++ [arg], by simp [hrest], by simp [hfilter, hnew], fun x hx =>
      mem_append_left _ (hread x hx)⟩
  · rw [heq]
    exact h.consume hnodup hn htkept htrest htaken
  · rw [heq, consumeArgs] at hresult
    split at hresult <;> simp [hfail] at hresult

theorem scanArg_rest (hrest : s.rest = arg :: rest) (hreg : ¬ RegistryEq s) :
    (scanArg s).rest.length < s.rest.length := by
  obtain heq | ⟨n, t, heq, -, htrest, hpos, -⟩ := scanArg_cases hrest hreg
  · simp [heq, hrest]
  · rw [heq, consumeArgs]
    split
    · simp only [htrest, hrest, length_drop, length_cons]
      omega
    · simp [hrest]

theorem scanLoop_stopped (fuel : Nat) (h : s.result = false ∨ s.rest = []) :
    scanLoop fuel s = s ∧ scanTurns fuel s = [] := by
  rcases h with h | h <;> cases fuel <;> simp [scanLoop, scanTurns, h]

theorem argc_of_lastWithoutParam (h : LastWithoutParam s) :
    (scanArg s).kept = [] ∧ (scanArg s).rest = [] := by
  obtain ⟨hlen, arg, hrest, heq, var, hopt⟩ := h
  simp [scanArg, hrest, hopt, heq, consumeArgs, hlen]

theorem scanLoop_right_of_nil (h : Parted argv s) (hkept : s.kept ≠ []) (hrest : s.rest = [])
    (fuel : Nat) : LineRight argv (scanTurns fuel s) (scanLoop fuel s) ↔
      ∀ t ∈ scanTurns fuel s, ¬ RegistryEq t ∧ ¬ LastWithoutParam t := by
  obtain ⟨read, rfl, hfilter, -⟩ := h
  obtain ⟨hloop, hturns⟩ := scanLoop_stopped fuel (.inr hrest)
  rw [hloop, hturns]
  exact iff_of_true ⟨fun _ => ⟨hrest, by simpa [hrest] using hfilter⟩, by simp, by simp [hkept]⟩
    (by simp)

theorem scanLoop_right_iff (hnodup : argv.Nodup) {fuel : Nat} (hfuel : s.rest.length ≤ fuel)
    (h : Parted argv s) (hkept : s.kept ≠ []) (hresult : s.result = true) :
    LineRight argv (scanTurns fuel s) (scanLoop fuel s) ↔
      ∀ t ∈ scanTurns fuel s, ¬ RegistryEq t ∧ ¬ LastWithoutParam t := by
  induction fuel generalizing s with
  | zero => exact scanLoop_right_of_nil h hkept (length_eq_zero_iff.mp (Nat.le_zero.mp hfuel)) 0
  | succ fuel ih =>
    cases hrest : s.rest with
    | nil => exact scanLoop_right_of_nil h hkept hrest (fuel + 1)
    | cons arg rest =>
      have hturn : (s.result && s.rest ≠ []) = true := by simp [hresult, hrest]
      have hargv : argv ≠ [] := by
        obtain ⟨read, rfl, -⟩ := h
        simp [hrest]
      simp only [scanLoop, scanTurns, hturn, if_true, LineRight, forall_mem_cons, hargv, ne_eq,
        not_false_eq_true, forall_const, spelledAlike_iff hkept]
      by_cases hreg : RegistryEq s
      · simp [hreg]
      by_cases hlast : LastWithoutParam s
      · obtain ⟨hnone, hstop⟩ := argc_of_lastWithoutParam hlast
        simp [hlast, scanLoop_stopped fuel (.inr hstop), hnone, hstop]
      have hkept' := scanArg_kept hrest hreg hlast hkept
      have hlater : LineRight argv (scanTurns fuel (scanArg s)) (scanLoop fuel (scanArg s)) ↔
          ∀ t ∈ scanTurns fuel (scanArg s), ¬ RegistryEq t ∧ ¬ LastWithoutParam t := by
        cases hres : (scanArg s).result with
        | false =>
          obtain ⟨hloop, hturns⟩ := scanLoop_stopped fuel (.inl hres)
          rw [hloop, hturns]
          exact iff_of_true ⟨by simp [hres], by simp, by simp [hkept']⟩ (by simp)
        | true =>
          have hless := scanArg_rest hrest hreg
          exact ih (by omega) (scanArg_parted hnodup h hrest hreg hres) hkept' hres
      simpa [LineRight, hreg, hlast, hargv] using hlater

end Scan

end EdgeComputing.DeviceSdk

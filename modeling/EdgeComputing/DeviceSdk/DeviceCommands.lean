import Mathlib.Data.List.Infix
import Mathlib.Data.List.TakeWhile

/-!
The URLs of commands on devices (device.c). A URL is memory with its terminating NUL; a read beyond
that is `none`. The handler cuts the URL in two while the command runs.
-/

namespace EdgeComputing.DeviceSdk

open List

def nul : Char := '\x00'

def cstr (mem : List Char) : List Char := mem.takeWhile (· ≠ nul)

def strchr (c : Char) : List Char → Option (Option Nat)
  | [] => none
  | x :: mem =>
    if x = c then some (some 0)
    else if x = nul then some none
    else (strchr c mem).map (·.map (· + 1))

/-- The devices with their commands, for the method of a request. -/
structure CommandService (δ κ : Type) where
  byName : List Char → Option δ
  byId : List Char → Option δ
  forCmd : List Char → List (δ × κ)
  findCommand : δ → List Char → Option κ
  hasCommand : δ → List Char → Bool

inductive CommandReply (δ κ : Type) where
  | notFound
  | methodNotAllowed
  | ran (runs : List (δ × κ))

section Handler

variable {δ κ : Type} (svc : CommandService δ κ)

def oneCommand (id : List Char) (byName : Bool) (cmd : List Char) : CommandReply δ κ :=
  match if byName then svc.byName id else svc.byId id with
  | none => .notFound
  | some dev =>
    match svc.findCommand dev cmd with
    | some command => .ran [(dev, command)]
    | none => if svc.hasCommand dev cmd then .methodNotAllowed else .notFound

def allCommand (cmd : List Char) : CommandReply δ κ := .ran (svc.forCmd cmd)

def commandFrom (url : List Char) (start : Nat) (byName : Bool) :
    Option (CommandReply δ κ × List Char) :=
  (strchr '/' (url.drop start)).map fun
    | none => (.notFound, url)
    | some i =>
      let cmd := start + i
      if cstr (url.drop (cmd + 1)) = [] then (.notFound, url)
      else
        let cut := url.set cmd nul
        (oneCommand svc (cstr (cut.drop start)) byName (cstr (cut.drop (cmd + 1))), cut.set cmd '/')

/-- The reply, and the URL on return. -/
def edgexDeviceHandlerDevice (url : List Char) : Option (CommandReply δ κ × List Char) :=
  if cstr url = [] then some (.notFound, url)
  else if ['a', 'l', 'l', '/'].isPrefixOf url then
    let cmd := cstr (url.drop 4)
    some (if cmd ≠ [] then allCommand svc cmd else .notFound, url)
  -- `strncmp (url, "name/", 4)` compares four characters.
  else if (['n', 'a', 'm', 'e', '/'].take 4).isPrefixOf url then commandFrom svc url 5 true
  else commandFrom svc url 0 false

/-- Runs the command after the first slash on the device named before it. -/
def runAt (byName : Bool) (tail : List Char) : CommandReply δ κ :=
  match tail.dropWhile (· ≠ '/') with
  | _ :: c :: cmd => oneCommand svc (tail.takeWhile (· ≠ '/')) byName (c :: cmd)
  | _ => .notFound

/-- What a URL stands for. -/
def addressed (url : List Char) : CommandReply δ κ :=
  if ['a', 'l', 'l', '/'].isPrefixOf url then
    if url.drop 4 ≠ [] then allCommand svc (url.drop 4) else .notFound
  else if ['n', 'a', 'm', 'e', '/'].isPrefixOf url then runAt svc true (url.drop 5)
  else runAt svc false url

variable {svc}

theorem all_ne {c : Char} {u : List Char} (hc : c ∉ u) : ∀ x ∈ u, decide (x ≠ c) = true := by
  intro x hx
  simpa using fun h : x = c => hc (h ▸ hx)

theorem cstr_append {u : List Char} (hu : nul ∉ u) (rest : List Char) :
    cstr (u ++ nul :: rest) = u := by
  rw [cstr, takeWhile_append_of_pos (all_ne hu), takeWhile_cons_of_neg (by simp), append_nil]

theorem strchr_absent {c : Char} {u : List Char} (hc : c ∉ u) (hnul : c ≠ nul) (hu : nul ∉ u) :
    strchr c (u ++ [nul]) = some none := by
  induction u with
  | nil => simp [strchr, hnul.symm]
  | cons x u ih =>
    simp only [mem_cons, not_or] at hc hu
    simp [strchr, Ne.symm hc.1, Ne.symm hu.1, ih hc.2 hu.2]

theorem strchr_append {c : Char} {u : List Char} (hc : c ∉ u) (hu : nul ∉ u) (rest : List Char) :
    strchr c (u ++ c :: rest) = some (some u.length) := by
  induction u with
  | nil => simp [strchr]
  | cons x u ih =>
    simp only [mem_cons, not_or] at hc hu
    simp [strchr, Ne.symm hc.1, Ne.symm hu.1, ih hc.2 hu.2]

theorem isPrefixOf_nul {lit url : List Char} (h : nul ∉ lit) :
    lit.isPrefixOf (url ++ [nul]) = lit.isPrefixOf url := by
  rw [Bool.eq_iff_iff, isPrefixOf_iff_prefix, isPrefixOf_iff_prefix, prefix_concat_iff]
  exact or_iff_right fun heq => h (heq ▸ by simp)

theorem runAt_absent {tail : List Char} (h : '/' ∉ tail) (byName : Bool) :
    runAt svc byName tail = .notFound := by
  rw [runAt, dropWhile_eq_nil_iff.mpr (all_ne h)]

theorem runAt_append {i : List Char} (hi : '/' ∉ i) (byName : Bool) (cmd : List Char) :
    runAt svc byName (i ++ '/' :: cmd) =
      if cmd = [] then .notFound else oneCommand svc i byName cmd := by
  rw [runAt, takeWhile_append_of_pos (all_ne hi), dropWhile_append_of_pos (all_ne hi)]
  cases cmd <;> simp

variable (svc) in
theorem commandFrom_eq {p tail : List Char} (hnul : nul ∉ tail) (byName : Bool) :
    commandFrom svc (p ++ (tail ++ [nul])) p.length byName =
      some (runAt svc byName tail, p ++ (tail ++ [nul])) := by
  unfold commandFrom
  rw [drop_left]
  by_cases h : '/' ∈ tail
  · obtain ⟨i, cmd, rfl, hi⟩ := eq_append_cons_of_mem h
    simp only [mem_append, mem_cons, not_or] at hnul
    have hset (x y : Char) (rest : List Char) :
        (p ++ (i ++ x :: rest)).set (p.length + i.length) y = p ++ (i ++ y :: rest) := by
      simp
    have hdrop (x : Char) (rest : List Char) :
        (p ++ (i ++ x :: rest)).drop (p.length + i.length + 1) = rest := by
      rw [← append_assoc, ← length_append, drop_length_add_append, drop_one, tail_cons]
    simp only [append_assoc, cons_append, strchr_append hi hnul.1, runAt_append hi,
      Option.map_some, hset, hdrop, drop_left, cstr_append hnul.1, cstr_append hnul.2.2]
    split_ifs <;> rfl
  · rw [strchr_absent h (by decide) hnul, runAt_absent h]
    rfl

/-- The URLs that are misread. -/
def Misread (url : List Char) : Prop :=
  url = ['n', 'a', 'm', 'e'] ∨ ∃ x i cmd, x ≠ '/' ∧ '/' ∉ i ∧ cmd ≠ [] ∧
    url = 'n' :: 'a' :: 'm' :: 'e' :: x :: (i ++ '/' :: cmd)

/-- Every device is found by name, and none by its id. -/
def namedOnly [Inhabited δ] [Inhabited κ] : CommandService δ κ :=
  ⟨fun _ => some default, fun _ => none, fun _ => [], fun _ _ => some default, fun _ _ => false⟩

section NameUrl

variable {x : Char} {tail : List Char}

theorem handler_name (hnul : nul ∉ x :: tail) :
    edgexDeviceHandlerDevice svc ('n' :: 'a' :: 'm' :: 'e' :: x :: tail ++ [nul]) =
      some (runAt svc true tail, 'n' :: 'a' :: 'm' :: 'e' :: x :: tail ++ [nul]) := by
  have hcut := commandFrom_eq svc (p := ['n', 'a', 'm', 'e', x]) (not_mem_of_not_mem_cons hnul) true
  simpa [edgexDeviceHandlerDevice, cstr, nul] using hcut

theorem addressed_name (hx : x ≠ '/') :
    addressed svc ('n' :: 'a' :: 'm' :: 'e' :: x :: tail) =
      runAt svc false ('n' :: 'a' :: 'm' :: 'e' :: x :: tail) := by
  simp [addressed, hx.symm]

theorem addressed_of_not_misread (h : ¬ Misread ('n' :: 'a' :: 'm' :: 'e' :: x :: tail)) :
    addressed svc ('n' :: 'a' :: 'm' :: 'e' :: x :: tail) = runAt svc true tail := by
  by_cases hx : x = '/'
  · simp [addressed, hx]
  rw [addressed_name hx]
  by_cases hslash : '/' ∈ tail
  · obtain ⟨i, cmd, rfl, hi⟩ := eq_append_cons_of_mem hslash
    have hcmd : cmd = [] := by
      by_contra hcmd
      exact h (.inr ⟨x, i, cmd, hx, hi, hcmd, rfl⟩)
    have hname : '/' ∉ 'n' :: 'a' :: 'm' :: 'e' :: x :: i := by simp [hi, Ne.symm hx]
    rw [runAt_append hi, hcmd]
    exact runAt_append hname false []
  · rw [runAt_absent hslash, runAt_absent (by simp [hslash, Ne.symm hx])]

end NameUrl

/-- Commands run where the URL says, on every set of devices, exactly if the URL is not misread. -/
theorem command_urls_iff [Inhabited δ] [Inhabited κ] (url : List Char) (hnul : nul ∉ url) :
    (∀ svc : CommandService δ κ, edgexDeviceHandlerDevice svc (url ++ [nul]) =
      some (addressed svc url, url ++ [nul])) ↔ ¬ Misread url := by
  constructor
  · rintro h (rfl | ⟨x, i, cmd, hx, hi, hcmd, rfl⟩)
    · cases (h namedOnly : none = _)
    · have hname : '/' ∉ 'n' :: 'a' :: 'm' :: 'e' :: x :: i := by simp [hi, hx.symm]
      have hid (svc : CommandService δ κ) :
          runAt svc false ('n' :: 'a' :: 'm' :: 'e' :: x :: (i ++ '/' :: cmd)) = _ :=
        runAt_append hname false cmd
      have hreply := h namedOnly
      rw [handler_name (by simp_all), runAt_append hi, addressed_name hx, hid] at hreply
      simp [hcmd, oneCommand, namedOnly] at hreply
  · intro h svc
    by_cases hname : ['n', 'a', 'm', 'e'] <+: url
    · obtain ⟨_ | ⟨x, tail⟩, rfl⟩ := hname
      · exact absurd (.inl rfl) h
      · exact (handler_name (by simp_all)).trans (by rw [← addressed_of_not_misread h]; rfl)
    · have hslash : ¬ ['n', 'a', 'm', 'e', '/'] <+: url := fun hp => hname (.trans (by decide) hp)
      unfold edgexDeviceHandlerDevice addressed
      rw [cstr_append hnul, isPrefixOf_nul (by decide), isPrefixOf_nul (by decide)]
      simp only [take_succ_cons, take_zero, isPrefixOf_iff_prefix, hname, hslash, if_false]
      by_cases hall : ['a', 'l', 'l', '/'] <+: url
      · obtain ⟨cmd, rfl⟩ := hall
        have hcmd : cstr (cmd ++ [nul]) = cmd := cstr_append (fun hc => hnul (by simp [hc])) []
        simp [hcmd]
      by_cases hnil : url = []
      · simp [hnil, runAt]
      · rw [if_neg hnil, if_neg hall, if_neg hall]
        exact commandFrom_eq svc (p := []) hnul false

theorem command_url_of_id :
    nul ∉ ['a', '/', 'x'] ∧ ((∀ svc : CommandService Nat Nat,
      edgexDeviceHandlerDevice svc ['a', '/', 'x', nul] =
        some (addressed svc ['a', '/', 'x'], ['a', '/', 'x', nul])) ↔ ¬ Misread ['a', '/', 'x']) :=
  ⟨by decide, command_urls_iff ['a', '/', 'x'] (by decide)⟩

/-- A command for the device with the id "names" runs on the one with the empty name. -/
theorem id_taken_for_name :
    let svc : CommandService Nat Nat := namedOnly
    edgexDeviceHandlerDevice svc ['n', 'a', 'm', 'e', 's', '/', 'x', nul] =
        some (.ran [(0, 0)], ['n', 'a', 'm', 'e', 's', '/', 'x', nul]) ∧
      addressed svc ['n', 'a', 'm', 'e', 's', '/', 'x'] = .notFound :=
  ⟨rfl, rfl⟩

end Handler

end EdgeComputing.DeviceSdk
